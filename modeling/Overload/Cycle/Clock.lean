import Overload.Cycle.Session
import Overload.Pool.Accounting

namespace Overload.Cycle

open Transition

variable {Req : Type}

inductive Stage
  | waiting
  | starting
  | looping
  | sending
  deriving DecidableEq, Repr

def Phase.stage : Phase Req → Stage
  | .waiting => .waiting
  | .starting _ => .starting
  | .looping _ => .looping
  | _ => .sending

def Action.reading : Action Req → Option Int
  | .start timeRemaining | .getConnections timeRemaining | .pace timeRemaining => some timeRemaining
  | _ => none

inductive Moves : Action Req → Stage → Stage → Prop
  | rates {rate : RateMessage} : Moves (.rates rate) .waiting .starting
  | refuse {timeRemaining : Int} : Moves (.start timeRemaining) .starting .waiting
  | start {timeRemaining : Int} : Moves (.start timeRemaining) .starting .looping
  | giveUp {timeRemaining : Int} : Moves (.getConnections timeRemaining) .looping .waiting
  | ask {timeRemaining : Int} : 0 ≤ timeRemaining →
    Moves (.getConnections timeRemaining) .looping .sending
  | askAgain : Moves .handOut .sending .looping
  | handOut : Moves .handOut .sending .sending
  | fail {answer : Except String (List Req)} : Moves (.getRequests answer) .sending .waiting
  | getRequests {answer : Except String (List Req)} : Moves (.getRequests answer) .sending .sending
  | fill : Moves .fill .sending .sending
  | finish {timeRemaining : Int} : Moves (.pace timeRemaining) .sending .waiting
  | sleep {timeRemaining : Int} : 0 ≤ timeRemaining → Moves (.pace timeRemaining) .sending .looping
  | finishRequest {i sinceEpoch : Nat} {stage : Stage} :
    Moves (.finishRequest i sinceEpoch) stage stage
  | pool {b : Pool.Action} {stage : Stage} : Moves (.pool b) stage stage
  | reconnect : Moves .reconnect .waiting .waiting

theorem Moves.of_step {s t : Session Req} {a : Action Req} (h : step s a = some t) :
    Moves a s.phase.stage t.phase.stage := by
  cases Steps.of_step h with
  | rates hphase h =>
    obtain ⟨world, _, rfl⟩ := Option.map_eq_some_iff.mp h
    rw [hphase]
    exact .rates
  | start hphase hcall =>
    rw [hphase]
    unfold Session.start
    split
    · exact .refuse
    · split
      · exact .refuse
      · exact .start
  | @getConnections loop timeRemaining _ hphase h =>
    rw [hphase]
    unfold Session.getConnections at h
    split at h
    · cases h
      exact .giveUp
    · obtain ⟨world, _, rfl⟩ := Option.map_eq_some_iff.mp h
      exact .ask (by omega)
  | handOut hphase h =>
    rw [hphase]
    obtain ⟨_, vec, _, _, world, _, _, rfl⟩ := Session.handOut_eq_some h
    unfold Session.receive
    dsimp only
    split
    · exact .askAgain
    · exact .handOut
  | @getRequests loop connections answer hphase =>
    rw [hphase]
    unfold Session.sendRequests
    split
    · exact .fail
    · split
      · exact .fail
      · split <;> exact .getRequests
  | fill hphase =>
    rw [hphase]
    unfold Session.fillReq
    split <;> exact .fill
  | @pace loop availableConnection timeRemaining hphase =>
    rw [hphase]
    unfold Session.pace
    dsimp only
    split
    · exact .finish
    · split
      · exact .finish
      · exact .sleep (by omega)
  | finishRequest => exact .finishRequest
  | pool => exact .pool
  | reconnect hphase =>
    rw [hphase]
    exact .reconnect

def cycleLengthInMillis : Int := 1000

def nanosInMilli : Int := 1000000

/-- Instants are in nanoseconds.  `checked` is when the handler last looked at the clock;
`cycles` and `overrun` add up what this handler's cycles took longer than a second. -/
structure Clocked (Req : Type) where
  session : Session Req
  now : Int
  startOfCycle : Int
  timeOffset : Int
  checked : Int
  cycles : Nat
  overrun : Int

namespace Clocked

variable (c : Clocked Req)

def elapsedMillis (start : Int) : Int := (c.now - start) / nanosInMilli

def correctedWithOffset : Int :=
  if c.timeOffset > 0 then c.startOfCycle - c.timeOffset * nanosInMilli else c.startOfCycle

def timeRemaining : Int := cycleLengthInMillis - c.elapsedMillis c.correctedWithOffset

def endOfCycle (session : Session Req) : Clocked Req :=
  let timeOffset := c.elapsedMillis c.startOfCycle - cycleLengthInMillis
  { c with session, timeOffset, cycles := c.cycles + 1, overrun := c.overrun + timeOffset }

def worked (a : Action Req) (session : Session Req) : Clocked Req :=
  if c.session.phase.stage ≠ .waiting ∧ session.phase.stage = .waiting then c.endOfCycle session
  else { c with session, checked := if a.reading.isSome then c.now else c.checked }

def moved (a : Action Req) (session : Session Req) : Clocked Req :=
  match a with
  | .rates _ => { c with session, startOfCycle := c.now, checked := c.now }
  | .reconnect => { c with session, timeOffset := 0, cycles := 0, overrun := 0 }
  | a => c.worked a session

end Clocked

inductive ClockAction (Req : Type)
  | wait (ns : Nat)
  | act (a : Action Req)

/-- Within a cycle no more than `limit` milliseconds go by between two looks at the clock. -/
def clockStep (limit : Nat) (c : Clocked Req) : ClockAction Req → Option (Clocked Req)
  | .wait ns =>
    if c.session.phase.stage = .waiting ∨ c.now + ns ≤ c.checked + limit * nanosInMilli then
      some { c with now := c.now + ns }
    else none
  | .act a =>
    if a.reading.all (· = c.timeRemaining) then (step c.session a).map (c.moved a) else none

def Clocked.Fresh (c : Clocked Req) : Prop :=
  c.session.phase = .waiting ∧ c.timeOffset = 0 ∧ c.cycles = 0 ∧ c.overrun = 0

section CatchUp

variable {limit : Nat} {c d : Clocked Req}

def Clocked.Punctual (limit : Nat) (c : Clocked Req) : Stage → Prop
  | .waiting => True
  | .starting => c.checked = c.startOfCycle
  | .looping => c.checked ≤ c.startOfCycle + limit * nanosInMilli ∨
    c.checked - c.correctedWithOffset < (cycleLengthInMillis + 1) * nanosInMilli
  | .sending => c.checked - c.correctedWithOffset < (cycleLengthInMillis + 1) * nanosInMilli

structure Clocked.CatchesUp (limit : Nat) (c : Clocked Req) : Prop where
  offset : c.timeOffset ≤ limit
  debt : 2 * c.overrun ≤ c.cycles * limit + max c.timeOffset 0
  recent : c.session.phase.stage ≠ .waiting → c.checked ≤ c.now ∧
    c.now ≤ c.checked + limit * nanosInMilli
  punctual : c.Punctual limit c.session.phase.stage

theorem Clocked.CatchesUp.offset_endOfCycle (hlimit : limit ≤ 500) (h : c.CatchesUp limit)
    (hstage : c.session.phase.stage ≠ .waiting) (session : Session Req) :
    (c.endOfCycle session).timeOffset ≤ limit - max c.timeOffset 0 := by
  obtain ⟨hoffset, -, hrecent, hpunctual⟩ := h
  obtain ⟨-, hnow⟩ := hrecent hstage
  simp only [endOfCycle, elapsedMillis, cycleLengthInMillis, nanosInMilli] at hnow ⊢
  cases hphase : c.session.phase.stage with
  | waiting => exact absurd hphase hstage
  | starting =>
    rw [hphase] at hpunctual
    simp only [Punctual] at hpunctual
    omega
  | looping =>
    rw [hphase] at hpunctual
    simp only [Punctual, correctedWithOffset, cycleLengthInMillis, nanosInMilli] at hpunctual
    split at hpunctual <;> omega
  | sending =>
    rw [hphase] at hpunctual
    simp only [Punctual, correctedWithOffset, cycleLengthInMillis, nanosInMilli] at hpunctual
    split at hpunctual <;> omega

theorem Clocked.CatchesUp.endOfCycle (hlimit : limit ≤ 500) (h : c.CatchesUp limit)
    (hstage : c.session.phase.stage ≠ .waiting) {session : Session Req}
    (hsession : session.phase.stage = .waiting) : (c.endOfCycle session).CatchesUp limit where
  offset := by
    have hoffset := h.offset_endOfCycle hlimit hstage session
    omega
  debt := by
    have hoffset := h.offset_endOfCycle hlimit hstage session
    have hdebt := h.debt
    have hcycles : ((c.endOfCycle session).cycles : Int) * limit = c.cycles * limit + limit := by
      rw [show (c.endOfCycle session).cycles = c.cycles + 1 from rfl, Int.natCast_add,
        Int.natCast_one, Int.add_mul, Int.one_mul]
    have hoverrun : (c.endOfCycle session).overrun =
        c.overrun + (c.endOfCycle session).timeOffset := rfl
    omega
  recent hwaiting := absurd hsession hwaiting
  punctual := by
    rw [show (c.endOfCycle session).session = session from rfl, hsession]
    trivial

theorem Clocked.checked_of_timeRemaining (h : 0 ≤ c.timeRemaining) :
    c.now - c.correctedWithOffset < (cycleLengthInMillis + 1) * nanosInMilli := by
  simp only [timeRemaining, elapsedMillis, cycleLengthInMillis, nanosInMilli] at h ⊢
  omega

theorem Clocked.CatchesUp.goesOn (h : c.CatchesUp limit) {checked : Int} {session : Session Req}
    (hstage : session.phase.stage ≠ .waiting → c.session.phase.stage ≠ .waiting)
    (hchecked : checked = c.checked ∨ checked = c.now)
    (hpunctual : { c with session, checked }.Punctual limit session.phase.stage) :
    { c with session, checked }.CatchesUp limit where
  offset := h.offset
  debt := h.debt
  recent hsession := by
    have hrecent := h.recent (hstage hsession)
    simp only [nanosInMilli] at hrecent ⊢
    omega
  punctual := hpunctual

theorem Clocked.CatchesUp.worked_goesOn (h : c.CatchesUp limit) {a : Action Req}
    {session : Session Req}
    (hstage : session.phase.stage = .waiting ↔ c.session.phase.stage = .waiting)
    (hpunctual : { c with
      session, checked := if a.reading.isSome then c.now else c.checked }.Punctual limit
        session.phase.stage) :
    (c.worked a session).CatchesUp limit := by
  rw [worked, if_neg fun hends => hends.1 (hstage.mp hends.2)]
  refine h.goesOn (fun hsession hc => hsession (hstage.mpr hc)) ?_ hpunctual
  split
  · exact .inr rfl
  · exact .inl rfl

theorem Clocked.CatchesUp.moved (hlimit : limit ≤ 500) (h : c.CatchesUp limit) {a : Action Req}
    {session : Session Req} (hreading : ∀ r ∈ a.reading, r = c.timeRemaining)
    (hstep : step c.session a = some session) : (c.moved a session).CatchesUp limit := by
  have hmoves := Moves.of_step hstep
  generalize hs : c.session.phase.stage = stage at hmoves
  generalize ht : session.phase.stage = stage' at hmoves
  have hpunctual := h.punctual
  rw [hs] at hpunctual
  cases hmoves with
  | rates =>
    refine ⟨h.offset, h.debt, fun _ => ?_, ?_⟩
    · simp only [Clocked.moved, nanosInMilli]
      omega
    · simp only [Clocked.moved, ht, Punctual]
  | refuse | giveUp | fail | finish =>
    have hstage : c.session.phase.stage ≠ .waiting := by
      rw [hs]
      nofun
    change (c.worked _ session).CatchesUp limit
    rw [worked, if_pos ⟨hstage, ht⟩]
    exact h.endOfCycle hlimit hstage ht
  | start =>
    have hrecent := h.recent (by rw [hs]; nofun)
    rw [show c.checked = c.startOfCycle from hpunctual] at hrecent
    refine h.worked_goesOn (by simp [hs, ht]) ?_
    rw [ht]
    exact .inl hrecent.2
  | ask hr =>
    refine h.worked_goesOn (by simp [hs, ht]) ?_
    rw [ht]
    exact checked_of_timeRemaining (hreading _ rfl ▸ hr)
  | sleep hr =>
    refine h.worked_goesOn (by simp [hs, ht]) ?_
    rw [ht]
    exact .inr (checked_of_timeRemaining (hreading _ rfl ▸ hr))
  | askAgain =>
    refine h.worked_goesOn (by simp [hs, ht]) ?_
    rw [ht]
    exact .inr hpunctual
  | handOut | getRequests | fill | finishRequest | pool =>
    refine h.worked_goesOn (by simp [hs, ht]) ?_
    rw [ht]
    exact hpunctual
  | reconnect =>
    refine ⟨?_, ?_, fun hsession => absurd ht hsession, ?_⟩
    · exact Int.natCast_nonneg limit
    · simp [Clocked.moved]
    · simp only [Clocked.moved, ht, Punctual]

theorem clockStep_catchesUp (hlimit : limit ≤ 500) (h : c.CatchesUp limit) {a : ClockAction Req}
    (hstep : clockStep limit c a = some d) : d.CatchesUp limit := by
  cases a with
  | wait ns =>
    rw [clockStep] at hstep
    split at hstep
    next hwait =>
      cases hstep
      refine ⟨h.offset, h.debt, fun hstage => ?_, h.punctual⟩
      have hrecent := h.recent hstage
      rcases hwait with hwaiting | hwait
      · exact absurd hwaiting hstage
      · exact ⟨by dsimp only; omega, hwait⟩
    next => cases hstep
  | act a =>
    rw [clockStep] at hstep
    split at hstep
    next hreading =>
      obtain ⟨session, hsession, rfl⟩ := Option.map_eq_some_iff.mp hstep
      refine h.moved hlimit (fun r hr => ?_) hsession
      rw [Option.mem_def.mp hr] at hreading
      simpa using hreading
    next => cases hstep

theorem Clocked.Fresh.catchesUp (h : c.Fresh) : c.CatchesUp limit := by
  obtain ⟨hphase, hoffset, hcycles, hoverrun⟩ := h
  refine ⟨?_, ?_, fun hstage => absurd (congrArg Phase.stage hphase) hstage, ?_⟩
  · rw [hoffset]
    exact Int.natCast_nonneg limit
  · simp [hoffset, hcycles, hoverrun]
  · rw [hphase]
    trivial

end CatchUp

def newHandler : Clocked Nat where
  session := .new Nat .immediate 50 Pool.keepAliveForever true
  now := 0
  startOfCycle := 0
  timeOffset := 0
  checked := 0
  cycles := 0
  overrun := 0

def vainTurn (timeRemaining : Int) : List (ClockAction Nat) :=
  [.act (.getConnections timeRemaining), .act (.pool .prepareHandOut), .act .handOut,
    .wait 500000000]

def lateCycles : List (ClockAction Nat) :=
  [.act (.rates ⟨1, 0⟩), .act (.start 1000)] ++ vainTurn 1000 ++ vainTurn 500 ++ vainTurn 0 ++
    [.act (.getConnections (-500)), .act (.rates ⟨1, 0⟩), .act (.start 500)] ++ vainTurn 500 ++
    vainTurn 0 ++ [.act (.getConnections (-500))]

theorem isSome_lateCycles : (run (clockStep 500) newHandler lateCycles).isSome = true := by
  decide +kernel

end Overload.Cycle
