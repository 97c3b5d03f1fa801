import Overload.Cycle.Session
import Overload.Pool.Accounting

namespace Overload.Cycle

open Transition
open Pool (HttpConnection World)

variable {Req : Type} {s t : Session Req} {a : Action Req} {n : Nat}

namespace Fill

variable {fill fill' : Fill Req}

theorem next_eq_none : fill.next = none ↔ fill.needToInsert = 0 := by
  unfold next
  split
  · simp [*]
  · split <;> simp [*]

def turns (fill : Fill Req) : Nat :=
  2 * fill.needToInsert + if fill.i < fill.availableReq then 0 else 1

theorem next_eq_some (h : fill.next = some fill') :
    fill'.availableReq = fill.availableReq ∧
      fill'.requestsToSend.length + fill'.needToInsert =
        fill.requestsToSend.length + fill.needToInsert ∧
      (0 < fill.availableReq → fill'.turns < fill.turns) := by
  unfold next at h
  split at h
  · cases h
  · split at h
    · rename_i hneed hi
      cases h
      refine ⟨rfl, ?_, ?_⟩
      · simp only [List.length_append, List.length_singleton]
        omega
      · intro _
        simp only [turns, hi, if_true]
        split <;> omega
    · rename_i hi
      cases h
      refine ⟨rfl, rfl, ?_⟩
      intro hreq
      simp [turns, hi, hreq]

theorem next_of_nothing (hreq : fill.availableReq = 0) (hneed : fill.needToInsert ≠ 0) :
    fill.next = some { fill with i := 0 } := by
  have hi : ¬ fill.i < fill.availableReq := by omega
  simp [next, hneed, hi]

end Fill

theorem assign_eq (connections : List HttpConnection) (requestsToSend : List Req) :
    assign connections requestsToSend =
      if connections.length ≤ requestsToSend.length then
        some (connections.zip requestsToSend.reverse)
      else none := by
  induction connections generalizing requestsToSend with
  | nil => simp [assign]
  | cons con connections ih =>
    cases requestsToSend using List.reverseRecOn with
    | nil => simp [assign]
    | append_singleton requestsToSend req =>
      simp only [assign, List.getLast?_concat, List.dropLast_concat, ih, List.length_cons,
        List.length_append, List.length_nil, Nat.add_le_add_iff_right, List.reverse_append,
        List.reverse_cons, List.reverse_nil, List.nil_append, List.cons_append, List.zip_cons_cons]
      split <;> rfl

theorem assign_of_le {connections : List HttpConnection} {requestsToSend : List Req}
    (h : connections.length ≤ requestsToSend.length) :
    ∃ pairs, assign connections requestsToSend = some pairs ∧
      pairs.map Prod.fst = connections := by
  refine ⟨_, by rw [assign_eq, if_pos h], List.map_fst_zip ?_⟩
  rwa [List.length_reverse]

def request : Pool.Call → Option Nat
  | .claiming connectionRequest _ => some connectionRequest
  | .checking connectionRequest _ _ _ _ => some connectionRequest
  | _ => none

def Phase.Fits (call : Pool.Call) : Phase Req → Prop
  | .starting _ => True
  | .acquiring loop => request call = some loop.requestedConnection
  | .generating loop connections =>
    call = .idle ∧ connections ≠ [] ∧ connections.length ≤ loop.totalRemainingQps
  | .filling loop connections fill =>
    call = .idle ∧ connections ≠ [] ∧ connections.length ≤ loop.totalRemainingQps ∧
      fill.requestsToSend.length + fill.needToInsert = connections.length
  | .pacing loop availableConnection =>
    call = .idle ∧ availableConnection ≤ loop.totalRemainingQps
  | _ => call = .idle

theorem reachable_step {w w' : World} {b : Pool.Action}
    (h : ∃ elasticPool, Reachable Pool.step (Pool.Initial elasticPool) w)
    (hstep : Pool.step w b = some w') :
    ∃ elasticPool, Reachable Pool.step (Pool.Initial elasticPool) w' := by
  obtain ⟨elasticPool, h⟩ := h
  exact ⟨elasticPool, h.run (run_singleton.trans hstep)⟩

theorem prepareHandOut_spec (w : World) (connectionRequest returnedToPool : Nat) :
    (w.prepareHandOut connectionRequest returnedToPool).handedOut = w.handedOut ∧
      ((w.prepareHandOut connectionRequest returnedToPool).call = .panicked ∨
        request (w.prepareHandOut connectionRequest returnedToPool).call =
          some connectionRequest) := by
  unfold World.prepareHandOut
  split
  · exact ⟨rfl, .inl rfl⟩
  · exact ⟨World.adjust_handedOut _ connectionRequest, .inr rfl⟩

theorem background_spec {w w' : World} {b : Pool.Action} (hb : isBackground b)
    (h : Pool.step w b = some w') :
    w'.handedOut = w.handedOut ∧ (w.call = .idle → w'.call = .idle) ∧
      (∀ n, request w.call = some n → w'.call = .panicked ∨ request w'.call = some n) := by
  cases Pool.Steps.of_step h with
  | setConnectionCount => cases hb
  | getConnections => cases hb
  | handOut => cases hb
  | returnConnection => cases hb
  | resize hcall => exact ⟨rfl, fun _ => rfl, by simp [hcall, request]⟩
  | prepareHandOut hcall =>
    refine ⟨(prepareHandOut_spec ..).1, by simp [hcall], ?_⟩
    simp only [hcall, request, Option.some.injEq]
    rintro _ rfl
    exact (prepareHandOut_spec ..).2
  | ready hcall hmem => exact ⟨rfl, by simp [hcall], by simp [hcall, request]⟩
  | broken hcall hmem => exact ⟨rfl, by simp [hcall], by simp [hcall, request]⟩
  | _ => exact ⟨rfl, id, fun _ => .inr⟩

theorem call_handOut {w w' : World} (h : Pool.step w .handOut = some w') : w'.call = .idle := by
  cases Pool.Steps.of_step h with
  | handOut hcall => rfl

theorem Phase.Fits.of_call {phase : Phase Req} {call call' : Pool.Call} (h : phase.Fits call)
    (hidle : call = .idle → call' = .idle)
    (hrequest : ∀ n, request call = some n → request call' = some n) : phase.Fits call' := by
  cases phase with
  | waiting => exact hidle h
  | starting rate => trivial
  | looping loop => exact hidle h
  | acquiring loop => exact hrequest _ h
  | generating loop connections => exact ⟨hidle h.1, h.2⟩
  | filling loop connections fill => exact ⟨hidle h.1, h.2⟩
  | pacing loop availableConnection => exact ⟨hidle h.1, h.2⟩

theorem asksAgain_iff (loop : Loop) (availableConnection : Nat) (mode : LoadGenerationMode) :
    asksAgain loop.requestedConnection availableConnection mode ↔ availableConnection = 0 := by
  have hpos : 0 < loop.requestedConnection :=
    Nat.lt_min.mpr ⟨loop.bundleSize_pos, loop.remaining_pos⟩
  cases mode with
  | immediate => simp [asksAgain]
  | batch =>
    simp only [asksAgain, Bool.and_eq_true, decide_eq_true_eq]
    omega

def Phase.left : Phase Req → Nat
  | .waiting => 0
  | .starting rate => rate.qps
  | .looping loop => loop.totalRemainingQps
  | .acquiring loop => loop.totalRemainingQps
  | .generating loop _ => loop.totalRemainingQps
  | .filling loop _ _ => loop.totalRemainingQps
  | .pacing loop availableConnection => loop.totalRemainingQps - availableConnection

structure Paced (n : Nat) (s : Session Req) : Prop where
  reachable : ∃ elasticPool, Reachable Pool.step (Pool.Initial elasticPool) s.world
  fits : s.phase.Fits s.world.call
  budget : s.passed.length + s.phase.left ≤ n

namespace Paced

theorem new (mode : LoadGenerationMode) (requestBundleSize : Nat)
    (keepAlive : Pool.ConnectionKeepAlive) (elasticPool : Bool) :
    Paced 0 (Session.new Req mode requestBundleSize keepAlive elasticPool) where
  reachable := ⟨elasticPool, .of_init ⟨keepAlive, rfl⟩⟩
  fits := rfl
  budget := Nat.le_refl 0

theorem of_phase (hs : Paced n s) {phase : Phase Req} (h : s.phase = phase) :
    phase.Fits s.world.call ∧ s.passed.length + phase.left ≤ n :=
  h ▸ ⟨hs.fits, hs.budget⟩

theorem withPhase (hs : Paced n s) {phase : Phase Req} (hfits : phase.Fits s.world.call)
    (hleft : phase.left ≤ s.phase.left) : Paced n { s with phase } where
  reachable := hs.reachable
  fits := hfits
  budget := Nat.le_trans (Nat.add_le_add_left hleft _) hs.budget

theorem background (hs : Paced n s) {b : Pool.Action} {world : World} (hb : isBackground b)
    (h : Pool.step s.world b = some world) : Paced n { s with world } := by
  obtain ⟨_, hidle, hrequest⟩ := background_spec hb h
  obtain ⟨elasticPool, hworld⟩ := reachable_step hs.reachable h
  refine ⟨⟨elasticPool, hworld⟩, ?_, hs.budget⟩
  apply hs.fits.of_call hidle
  intro n hn
  exact (hrequest n hn).resolve_left (Pool.not_panicked hworld)

theorem handleRateMsg (hs : Paced n s) {rate : RateMessage} (h : s.handleRateMsg rate = some t) :
    Paced rate.qps t := by
  obtain ⟨world, hworld, rfl⟩ := Option.map_eq_some_iff.mp h
  have hbudget : ([] : List HttpConnection).length + rate.qps ≤ rate.qps := by simp
  rcases Session.resize_eq_some hworld with ⟨_, hworld⟩ | ⟨_, rfl⟩
  · exact ⟨reachable_step hs.reachable hworld, trivial, hbudget⟩
  · exact ⟨hs.reachable, trivial, hbudget⟩

theorem start (hs : Paced n s) {rate : RateMessage} (timeRemaining : Int)
    (hphase : s.phase = .starting rate) (hcall : s.world.call = .idle) :
    Paced n (s.start rate timeRemaining) := by
  unfold Session.start
  split
  · exact hs.withPhase hcall (Nat.zero_le _)
  · split
    · exact hs.withPhase hcall (Nat.zero_le _)
    · exact hs.withPhase hcall (by rw [hphase, Phase.left, Phase.left])

theorem getConnections (hs : Paced n s) {loop : Loop} {timeRemaining : Int}
    (hphase : s.phase = .looping loop) (h : s.getConnections loop timeRemaining = some t) :
    Paced n t := by
  obtain ⟨hcall, hbudget⟩ := hs.of_phase hphase
  rcases Session.getConnections_eq_some h with rfl | ⟨world, hworld, rfl⟩
  · exact hs.withPhase hcall (Nat.zero_le _)
  · have hreachable := reachable_step hs.reachable hworld
    cases Pool.Steps.of_step hworld with
    | getConnections _ => exact ⟨hreachable, rfl, hbudget⟩

theorem length_handOut_le (hs : Paced n s) {loop : Loop} (hphase : s.phase = .acquiring loop)
    {connectionRequest dropped broken : Nat} {vec : List HttpConnection} {world : World}
    (hcall : s.world.call = .checking connectionRequest [] vec dropped broken)
    (hworld : Pool.step s.world .handOut = some world) :
    vec.length ≤ loop.requestedConnection := by
  obtain ⟨hrequest, _⟩ := hs.of_phase hphase
  obtain ⟨elasticPool, hreachable⟩ := hs.reachable
  rw [Phase.Fits, hcall, request, Option.some.injEq] at hrequest
  rw [← hrequest]
  exact (Pool.handOut_fits hreachable hcall hworld).1

theorem handOut (hs : Paced n s) {loop : Loop} (hphase : s.phase = .acquiring loop)
    (h : s.handOut loop = some t) : Paced n t := by
  obtain ⟨_, hbudget⟩ := hs.of_phase hphase
  obtain ⟨_, vec, _, _, world, hcall, hworld, rfl⟩ := Session.handOut_eq_some h
  have hle : vec.length ≤ loop.totalRemainingQps :=
    Nat.le_trans (hs.length_handOut_le hphase hcall hworld) (Nat.min_le_right _ _)
  have hreachable := reachable_step hs.reachable hworld
  have hidle := call_handOut hworld
  unfold Session.receive
  split
  · exact ⟨hreachable, hidle, hbudget⟩
  · rename_i hagain
    have hne : vec ≠ [] := by
      rw [asksAgain_iff] at hagain
      simpa using hagain
    exact ⟨hreachable, ⟨hidle, hne, hle⟩, hbudget⟩

theorem spawnRequests (hs : Paced n s) {loop : Loop} {connections : List HttpConnection}
    (requestsToSend : List Req) (hleft : s.phase.left = loop.totalRemainingQps)
    (hcall : s.world.call = .idle) (hle : connections.length ≤ loop.totalRemainingQps) :
    Paced n (s.spawnRequests loop connections requestsToSend) := by
  have hbudget := hs.budget
  refine ⟨hs.reachable, ⟨hcall, hle⟩, ?_⟩
  simp only [Session.spawnRequests, Phase.left, List.length_append]
  omega

theorem sendRequests (hs : Paced n s) {loop : Loop} {connections : List HttpConnection}
    (answer : Except String (List Req)) (hphase : s.phase = .generating loop connections) :
    Paced n (s.sendRequests loop connections answer) := by
  have hleft : s.phase.left = loop.totalRemainingQps := congrArg Phase.left hphase
  obtain ⟨⟨hcall, hne, hle⟩, _⟩ := hs.of_phase hphase
  cases answer with
  | error message => exact hs.withPhase hcall (Nat.zero_le _)
  | ok requestsToSend =>
    simp only [Session.sendRequests]
    split
    · exact hs.withPhase hcall (Nat.zero_le _)
    · split
      · rename_i hless
        refine hs.withPhase ⟨hcall, hne, hle, ?_⟩ (Nat.le_of_eq hleft.symm)
        simp only [Fill.start]
        omega
      · exact hs.spawnRequests requestsToSend hleft hcall hle

theorem fillReq (hs : Paced n s) {loop : Loop} {connections : List HttpConnection}
    {fill : Fill Req} (hphase : s.phase = .filling loop connections fill) :
    Paced n (s.fillReq loop connections fill) := by
  have hleft : s.phase.left = loop.totalRemainingQps := congrArg Phase.left hphase
  obtain ⟨⟨hcall, hne, hle, hlength⟩, _⟩ := hs.of_phase hphase
  unfold Session.fillReq
  split
  · rename_i fill' hnext
    refine hs.withPhase ⟨hcall, hne, hle, ?_⟩ (Nat.le_of_eq hleft.symm)
    rw [(Fill.next_eq_some hnext).2.1, hlength]
  · exact hs.spawnRequests fill.requestsToSend hleft hcall hle

theorem pace (hs : Paced n s) {loop : Loop} {availableConnection : Nat} (timeRemaining : Int)
    (hphase : s.phase = .pacing loop availableConnection) :
    Paced n (s.pace loop availableConnection timeRemaining) := by
  obtain ⟨⟨hcall, _⟩, _⟩ := hs.of_phase hphase
  unfold Session.pace
  split
  · exact hs.withPhase hcall (Nat.zero_le _)
  · split
    · exact hs.withPhase hcall (Nat.zero_le _)
    · rename_i loop' hsent
      refine hs.withPhase hcall ?_
      rw [hphase, Phase.left, Phase.left, (Loop.sent_eq_some hsent).2]

theorem finishRequest (hs : Paced n s) {con : HttpConnection} {i sinceEpoch : Nat} {world : World}
    (hworld : Pool.step s.world (.returnConnection con sinceEpoch) = some world) :
    Paced n { s with world, inFlight := s.inFlight.eraseIdx i } := by
  have hreachable := reachable_step hs.reachable hworld
  cases Pool.Steps.of_step hworld with
  | returnConnection _ => exact ⟨hreachable, hs.fits, hs.budget⟩

theorem step (hs : Paced n s) (ha : ∀ rate, a ≠ .rates rate) (h : step s a = some t) :
    Paced n t := by
  cases Steps.of_step h with
  | rates hphase h => exact absurd rfl (ha _)
  | start hphase hcall => exact hs.start _ hphase hcall
  | getConnections hphase h => exact hs.getConnections hphase h
  | handOut hphase h => exact hs.handOut hphase h
  | getRequests hphase => exact hs.sendRequests _ hphase
  | fill hphase => exact hs.fillReq hphase
  | pace hphase => exact hs.pace _ hphase
  | finishRequest hi hworld => exact hs.finishRequest hworld
  | pool hb hworld => exact hs.background hb hworld
  | reconnect hphase => exact ⟨hs.reachable, hs.fits, hs.budget⟩

end Paced

def Session.spawned (s : Session Req) : Action Req → Option (List HttpConnection × List Req)
  | .getRequests (.ok requestsToSend) =>
    match s.phase with
    | .generating _ connections =>
      if s.mode = .immediate ∧ requestsToSend.isEmpty then none
      else if requestsToSend.length < connections.length then none
      else some (connections, requestsToSend)
    | _ => none
  | .fill =>
    match s.phase with
    | .filling _ connections fill =>
      if fill.next = none then some (connections, fill.requestsToSend) else none
    | _ => none
  | _ => none

theorem passed_step (ha : ∀ rate, a ≠ .rates rate) (h : step s a = some t) :
    t.passed = s.passed ++ ((s.spawned a).map Prod.fst).getD [] := by
  cases Steps.of_step h with
  | rates hphase h => exact absurd rfl (ha _)
  | start hphase hcall =>
    simp only [Session.start, Session.spawned]
    split
    · simp
    · split <;> simp
  | getConnections hphase h =>
    rcases Session.getConnections_eq_some h with rfl | ⟨world, _, rfl⟩
    · simp [Session.spawned]
    · simp [Session.spawned]
  | handOut hphase h =>
    obtain ⟨_, vec, _, _, world, _, _, rfl⟩ := Session.handOut_eq_some h
    simp [Session.spawned, Session.receive]
  | @getRequests loop connections answer hphase =>
    cases answer with
    | error message => simp [Session.sendRequests, Session.spawned]
    | ok requestsToSend =>
      simp only [Session.sendRequests, Session.spawned, hphase]
      split
      · simp
      · split <;> simp [Session.spawnRequests]
  | fill hphase =>
    simp only [Session.fillReq, Session.spawned, hphase]
    split <;> simp [Session.spawnRequests, *]
  | pace hphase => simp [Session.pace, Session.spawned]
  | _ => simp [Session.spawned]

def received (past : List (Action Req)) : Nat :=
  past.foldl (fun qps a => match a with
    | .rates rate => rate.qps
    | _ => qps) 0

theorem received_rates (past : List (Action Req)) (rate : RateMessage) :
    received (past ++ [.rates rate]) = rate.qps := by
  simp [received]

theorem received_concat (past : List (Action Req)) (ha : ∀ rate, a ≠ .rates rate) :
    received (past ++ [a]) = received past := by
  cases a with
  | rates rate => exact absurd rfl (ha rate)
  | _ => simp [received]

structure Dispatches (past : List (Action Req)) (s : Session Req) : Prop where
  within : s.passed.length ≤ received past
  noUnderflow : ∀ loop availableConnection, s.phase = .pacing loop availableConnection →
    availableConnection ≤ loop.totalRemainingQps
  -- no task runs out of requests
  oneEach : ∀ a connections requestsToSend, s.spawned a = some (connections, requestsToSend) →
    ∃ pairs, assign connections requestsToSend = some pairs ∧ pairs.map Prod.fst = connections
  onlyTasks : ∀ a t, step s a = some t → (∀ rate, a ≠ .rates rate) →
    t.passed = s.passed ++ ((s.spawned a).map Prod.fst).getD []

theorem Paced.oneEach (hs : Paced n s) {connections : List HttpConnection}
    {requestsToSend : List Req} (h : s.spawned a = some (connections, requestsToSend)) :
    ∃ pairs, assign connections requestsToSend = some pairs ∧
      pairs.map Prod.fst = connections := by
  apply assign_of_le
  unfold Session.spawned at h
  split at h
  · split at h
    · split at h
      · cases h
      · split at h
        · cases h
        · obtain ⟨rfl, rfl⟩ := Prod.mk.inj (Option.some.inj h)
          omega
    · cases h
  · split at h
    · rename_i loop _ fill hphase
      split at h
      · rename_i hnext
        obtain ⟨rfl, rfl⟩ := Prod.mk.inj (Option.some.inj h)
        obtain ⟨⟨_, _, _, hlength⟩, _⟩ := hs.of_phase hphase
        rw [Fill.next_eq_none.mp hnext, Nat.add_zero] at hlength
        exact Nat.le_of_eq hlength.symm
      · cases h
    · cases h
  · cases h

theorem Paced.dispatches {past : List (Action Req)} (hs : Paced (received past) s) :
    Dispatches past s where
  within := Nat.le_trans (Nat.le_add_right _ _) hs.budget
  noUnderflow := by
    intro loop availableConnection hphase
    exact (hs.of_phase hphase).1.2
  oneEach := fun _ _ _ h => hs.oneEach h
  onlyTasks := fun _ _ h ha => passed_step ha h

theorem always_paced {s₀ : Session Req} (h₀ : Paced 0 s₀) (as : List (Action Req)) :
    Always step (fun past s => Paced (received past) s) s₀ as := by
  refine Meets.always (C := fun _ _ _ => True) h₀ ?_ (fun _ _ _ _ _ _ => trivial)
  intro past s a t hs _ h
  by_cases ha : ∃ rate, a = .rates rate
  · obtain ⟨rate, rfl⟩ := ha
    rw [received_rates]
    cases Steps.of_step h with
    | rates hphase h => exact hs.handleRateMsg h
  · have ha : ∀ rate, a ≠ .rates rate := fun rate hrate => ha ⟨rate, hrate⟩
    rw [received_concat past ha]
    exact hs.step ha h

theorem always_dispatches {s₀ : Session Req} (h₀ : Paced 0 s₀) (as : List (Action Req)) :
    Always step Dispatches s₀ as :=
  (always_paced h₀ as).mono fun _ _ hs => hs.dispatches

end Overload.Cycle
