import Overload.Cycle.Dispatch

namespace Overload.Cycle

open Transition
open Pool (HttpConnection World)

variable {Req : Type} {s t : Session Req} {a : Action Req}

def Phase.held : Phase Req → List HttpConnection
  | .generating _ connections => connections
  | .filling _ connections _ => connections
  | _ => []

structure Kept (s : Session Req) : Prop where
  reachable : ∃ elasticPool, Reachable Pool.step (Pool.Initial elasticPool) s.world
  custody : (s.inFlight.map Prod.fst ++ s.phase.held).Perm s.world.handedOut
  obtained : s.obtained.Perm (s.passed ++ s.phase.held)
  fits : s.phase.Fits s.world.call

namespace Kept

theorem ledger (hs : Kept s) {held : List HttpConnection} (h : s.phase.held = held) :
    (s.inFlight.map Prod.fst ++ held).Perm s.world.handedOut ∧
      s.obtained.Perm (s.passed ++ held) :=
  h ▸ ⟨hs.custody, hs.obtained⟩

theorem fits_of_phase (hs : Kept s) {phase : Phase Req} (h : s.phase = phase) :
    phase.Fits s.world.call :=
  h ▸ hs.fits

theorem paced (hs : Kept s) : Paced (s.passed.length + s.phase.left) s :=
  ⟨hs.reachable, hs.fits, Nat.le_refl _⟩

theorem of_paced {n : Nat} (ht : Paced n t)
    (hcustody : (t.inFlight.map Prod.fst ++ t.phase.held).Perm t.world.handedOut)
    (hobtained : t.obtained.Perm (t.passed ++ t.phase.held)) : Kept t :=
  ⟨ht.reachable, hcustody, hobtained, ht.fits⟩

theorem withPhase (hs : Kept s) {phase : Phase Req} (hheld : phase.held = s.phase.held)
    (hfits : phase.Fits s.world.call) : Kept { s with phase } where
  reachable := hs.reachable
  custody := by simpa only [hheld] using hs.custody
  obtained := by simpa only [hheld] using hs.obtained
  fits := hfits

theorem background (hs : Kept s) {b : Pool.Action} {world : World} (hb : isBackground b)
    (h : Pool.step s.world b = some world) : Kept { s with world } := by
  refine of_paced (hs.paced.background hb h) ?_ hs.obtained
  simpa only [(background_spec hb h).1] using hs.custody

theorem handleRateMsg (hs : Kept s) {rate : RateMessage} (hphase : s.phase = .waiting)
    (h : s.handleRateMsg rate = some t) : Kept t := by
  have hpaced := hs.paced.handleRateMsg h
  obtain ⟨hcustody, _⟩ := hs.ledger (congrArg Phase.held hphase)
  obtain ⟨world, hworld, rfl⟩ := Option.map_eq_some_iff.mp h
  refine of_paced hpaced ?_ (.refl _)
  rcases Session.resize_eq_some hworld with ⟨_, hworld⟩ | ⟨_, rfl⟩
  · cases Pool.Steps.of_step hworld with
    | setConnectionCount hcall =>
      simp only [World.setConnectionCount]
      split <;> exact hcustody
  · exact hcustody

theorem start (hs : Kept s) {rate : RateMessage} (timeRemaining : Int)
    (hphase : s.phase = .starting rate) (hcall : s.world.call = .idle) :
    Kept (s.start rate timeRemaining) := by
  have hheld := congrArg Phase.held hphase.symm
  unfold Session.start
  split
  · exact hs.withPhase hheld hcall
  · split <;> exact hs.withPhase hheld hcall

theorem getConnections (hs : Kept s) {loop : Loop} {timeRemaining : Int}
    (hphase : s.phase = .looping loop) (h : s.getConnections loop timeRemaining = some t) :
    Kept t := by
  have hpaced := hs.paced.getConnections hphase h
  obtain ⟨hcustody, hobtained⟩ := hs.ledger (congrArg Phase.held hphase)
  rcases Session.getConnections_eq_some h with rfl | ⟨world, hworld, rfl⟩
  · exact of_paced hpaced hcustody hobtained
  · cases Pool.Steps.of_step hworld with
    | getConnections _ => exact of_paced hpaced hcustody hobtained

theorem handOut (hs : Kept s) {loop : Loop} (hphase : s.phase = .acquiring loop)
    (h : s.handOut loop = some t) : Kept t := by
  have hpaced := hs.paced.handOut hphase h
  obtain ⟨hcustody, hobtained⟩ := hs.ledger (congrArg Phase.held hphase)
  simp only [Phase.held, List.append_nil] at hcustody hobtained
  obtain ⟨_, vec, _, _, world, hcall, hworld, rfl⟩ := Session.handOut_eq_some h
  simp only [Pool.step, hcall, Option.some.injEq] at hworld
  have hout : world.handedOut = s.world.handedOut ++ vec := by
    rw [← hworld]
    simp [World.handOut, World.refill]
  refine of_paced hpaced ?_ ?_ <;> unfold Session.receive
  · split
    · rename_i hagain
      rw [asksAgain_iff, List.length_eq_zero_iff] at hagain
      simpa [Phase.held, hout, hagain] using hcustody
    · simpa only [Phase.held, hout] using hcustody.append_right vec
  · split
    · rename_i hagain
      rw [asksAgain_iff, List.length_eq_zero_iff] at hagain
      simpa [Phase.held, hagain] using hobtained
    · exact hobtained.append_right vec

theorem spawnRequests (hs : Kept s) {loop : Loop} {connections : List HttpConnection}
    {requestsToSend : List Req} (hheld : s.phase.held = connections)
    (hcall : s.world.call = .idle) (hle : connections.length ≤ loop.totalRemainingQps)
    (henough : connections.length ≤ requestsToSend.length) :
    Kept (s.spawnRequests loop connections requestsToSend) := by
  obtain ⟨pairs, hpairs, hfst⟩ := assign_of_le henough
  obtain ⟨hcustody, hobtained⟩ := hs.ledger hheld
  refine ⟨hs.reachable, ?_, ?_, ⟨hcall, hle⟩⟩
  · simpa [Session.spawnRequests, hpairs, hfst, Phase.held] using hcustody
  · simpa [Session.spawnRequests, Phase.held] using hobtained

theorem fillReq (hs : Kept s) {loop : Loop} {connections : List HttpConnection} {fill : Fill Req}
    (hphase : s.phase = .filling loop connections fill) :
    Kept (s.fillReq loop connections fill) := by
  have hheld : s.phase.held = connections := congrArg Phase.held hphase
  obtain ⟨hcall, hne, hle, hlength⟩ := hs.fits_of_phase hphase
  unfold Session.fillReq
  split
  · rename_i fill' hnext
    refine hs.withPhase hheld.symm ⟨hcall, hne, hle, ?_⟩
    rw [(Fill.next_eq_some hnext).2.1, hlength]
  · rename_i hnext
    rw [Fill.next_eq_none.mp hnext, Nat.add_zero] at hlength
    exact hs.spawnRequests hheld hcall hle (Nat.le_of_eq hlength.symm)

theorem pace (hs : Kept s) {loop : Loop} {availableConnection : Nat} (timeRemaining : Int)
    (hphase : s.phase = .pacing loop availableConnection) :
    Kept (s.pace loop availableConnection timeRemaining) := by
  have hheld := congrArg Phase.held hphase.symm
  obtain ⟨hcall, _⟩ := hs.fits_of_phase hphase
  unfold Session.pace
  split
  · exact hs.withPhase hheld hcall
  · split <;> exact hs.withPhase hheld hcall

theorem finishRequest (hs : Kept s) {i sinceEpoch : Nat} {con : HttpConnection} {req : Req}
    {world : World} (hi : s.inFlight[i]? = some (con, req))
    (hworld : Pool.step s.world (.returnConnection con sinceEpoch) = some world) :
    Kept { s with world, inFlight := s.inFlight.eraseIdx i } := by
  obtain ⟨before, after, hsplit, _, herase⟩ := exists_split_of_getElem? hi
  have hcustody := hs.custody
  rw [hsplit] at hcustody
  have hfirst : (con :: (((before ++ after).map Prod.fst) ++ s.phase.held)).Perm
      s.world.handedOut := by
    refine .trans ?_ hcustody
    simp only [List.map_append, List.map_cons, List.append_assoc, List.cons_append]
    exact List.perm_middle.symm
  refine of_paced (hs.paced.finishRequest hworld) ?_ hs.obtained
  cases Pool.Steps.of_step hworld with
  | returnConnection _ =>
    rw [herase]
    exact (List.cons_perm_iff_perm_erase.mp hfirst).2

end Kept

/-- `get_requests` answers, and in `send_n_request_in_t_duration` not with an empty
vector. -/
def Answered (s : Session Req) : Action Req → Prop
  | .getRequests (.error _) => False
  | .getRequests (.ok requestsToSend) => s.mode = .immediate → requestsToSend ≠ []
  | _ => True

namespace Kept

theorem sendRequests (hs : Kept s) {loop : Loop} {connections : List HttpConnection}
    {answer : Except String (List Req)} (hphase : s.phase = .generating loop connections)
    (hanswer : Answered s (.getRequests answer)) :
    Kept (s.sendRequests loop connections answer) := by
  have hheld : s.phase.held = connections := congrArg Phase.held hphase
  obtain ⟨hcall, hne, hle⟩ := hs.fits_of_phase hphase
  cases answer with
  | error message => exact hanswer.elim
  | ok requestsToSend =>
    have hkeep : ¬ (s.mode = .immediate ∧ requestsToSend.isEmpty) := by
      rintro ⟨hmode, hempty⟩
      exact hanswer hmode (List.isEmpty_iff.mp hempty)
    simp only [Session.sendRequests, hkeep, if_false]
    split
    · rename_i hless
      refine hs.withPhase hheld.symm ⟨hcall, hne, hle, ?_⟩
      simp only [Fill.start]
      omega
    · rename_i hless
      exact hs.spawnRequests hheld hcall hle (by omega)

end Kept

theorem sendRequests_of_not_answered {loop : Loop} {connections : List HttpConnection}
    {answer : Except String (List Req)} (h : ¬ Answered s (.getRequests answer)) :
    s.sendRequests loop connections answer = { s with phase := .waiting } := by
  cases answer with
  | error message => rfl
  | ok requestsToSend =>
    simp only [Answered, Classical.not_imp, ne_eq, not_not] at h
    simp [Session.sendRequests, h.1, h.2]

theorem kept_step (hs : Kept s) (ha : Answered s a) (h : step s a = some t) : Kept t := by
  cases Steps.of_step h with
  | rates hphase h => exact hs.handleRateMsg hphase h
  | start hphase hcall => exact hs.start _ hphase hcall
  | getConnections hphase h => exact hs.getConnections hphase h
  | handOut hphase h => exact hs.handOut hphase h
  | getRequests hphase => exact hs.sendRequests hphase ha
  | fill hphase => exact hs.fillReq hphase
  | pace hphase => exact hs.pace _ hphase
  | finishRequest hi hworld => exact hs.finishRequest hi hworld
  | pool hb hworld => exact hs.background hb hworld
  | reconnect hphase => exact ⟨hs.reachable, hs.custody, hs.obtained, hs.fits⟩

/-- Every connection the cycle obtained went to a request task or is in the pool,
and the busy counter shows those in request tasks and those to be recycled. -/
def Accounted (s : Session Req) : Prop :=
  (∀ con ∈ s.obtained, con ∈ s.passed ∨ con ∈ s.world.pool.connections ∨
    con ∈ s.world.pool.recyclableConnections ∨ con ∈ s.world.pool.newConnections) ∧
  s.world.pool.busyConnections =
    (s.inFlight.length + s.world.returning.length) + s.world.pool.recyclableConnections.length

theorem Kept.accounted (hs : Kept s) (hphase : s.phase = .waiting) : Accounted s := by
  obtain ⟨hcustody, hobtained⟩ := hs.ledger (congrArg Phase.held hphase)
  have hcall : s.world.call = .idle := hs.fits_of_phase hphase
  obtain ⟨elasticPool, hreachable⟩ := hs.reachable
  simp only [Phase.held, List.append_nil] at hcustody hobtained
  refine ⟨fun con hcon => .inl (hobtained.subset hcon), ?_⟩
  have hbusy := Pool.busy_balance hreachable
  have hlength := hcustody.length_eq
  simp only [World.out, hcall, Pool.Call.stage, Pool.Stage.credited] at hbusy
  simp only [List.length_map] at hlength
  omega

theorem not_accounted_step (hs : Kept s) (ha : ¬ Answered s a) (h : step s a = some t) :
    t.phase = .waiting ∧ ¬ Accounted t := by
  cases Steps.of_step h with
  | getRequests hphase =>
    rw [sendRequests_of_not_answered ha]
    refine ⟨rfl, ?_⟩
    rintro ⟨_, hcount⟩
    obtain ⟨hcall, hne, _⟩ := hs.fits_of_phase hphase
    obtain ⟨hcustody, _⟩ := hs.ledger (congrArg Phase.held hphase)
    obtain ⟨elasticPool, hreachable⟩ := hs.reachable
    have hbusy := Pool.busy_balance hreachable
    have hlength := hcustody.length_eq
    have hpos := List.length_pos_iff.mpr hne
    simp only [World.out, hcall, Pool.Call.stage, Pool.Stage.credited] at hbusy
    simp only [Phase.held, List.length_append, List.length_map] at hlength
    simp only at hcount
    omega
  | _ => exact absurd trivial ha

structure Opening (s : Session Req) : Prop where
  reachable : ∃ elasticPool, Reachable Pool.step (Pool.Initial elasticPool) s.world
  call : s.world.call = .idle
  phase : s.phase = .waiting
  inFlight : (s.inFlight.map Prod.fst).Perm s.world.handedOut
  obtained : s.obtained = []
  passed : s.passed = []

theorem Opening.kept (h : Opening s) : Kept s where
  reachable := h.reachable
  custody := by simpa [h.phase, Phase.held] using h.inFlight
  obtained := by simp [h.obtained, h.passed, h.phase, Phase.held]
  fits := by
    rw [h.phase]
    exact h.call

/-- Over any number of cycles: the connections are accounted for whenever a cycle has
ended, if and only if no cycle was ended by `get_requests`. -/
theorem connections_accounted_iff {s₀ : Session Req} {as : List (Action Req)} (h₀ : Opening s₀)
    (hrun : run step s₀ as = some s) :
    Always step (fun _ s => s.phase = .waiting → Accounted s) s₀ as ↔
      Meets step (fun _ s a => Answered s a) s₀ as := by
  constructor
  · intro h
    have hkept : Always step (fun _ s => Kept s) s₀ as := by
      refine Always.of_always h₀.kept ?_ h
      intro past s a t hs hst ht
      by_cases ha : Answered s a
      · exact kept_step hs ha hst
      · obtain ⟨hphase, hlost⟩ := not_accounted_step hs ha hst
        exact absurd (ht hphase) hlost
    refine hkept.meets ?_ hrun
    intro past s a t hst hs ht _
    by_contra ha
    obtain ⟨hphase, hlost⟩ := not_accounted_step hs ha hst
    exact hlost (ht.accounted hphase)
  · intro h
    have hkept : Always step (fun _ s => Kept s) s₀ as :=
      h.always h₀.kept (fun _ _ _ _ hs ha hst => kept_step hs ha hst)
    exact hkept.mono fun _ _ hs => hs.accounted

instance (s : Session Req) (a : Action Req) [DecidableEq Req] : Decidable (Answered s a) := by
  unfold Answered
  split <;> infer_instance

instance (s : Session Req) : Decidable (Accounted s) := by
  unfold Accounted
  infer_instance

def fresh (mode : LoadGenerationMode) : Session Nat := .new Nat mode 50 Pool.keepAliveForever false

theorem fresh_opening (mode : LoadGenerationMode) : Opening (fresh mode) where
  reachable := ⟨false, .of_init ⟨Pool.keepAliveForever, rfl⟩⟩
  call := rfl
  phase := rfl
  inFlight := .refl _
  obtained := rfl
  passed := rfl

def cycleOfOne (answer : Except String (List Nat)) : List (Action Nat) :=
  [.rates ⟨1, 1⟩, .pool .resize, .pool (.startTask 0), .pool (.finishConnecting 0 [some 0]),
    .pool (.appendNew 0), .start 900, .getConnections 900, .pool .prepareHandOut,
    .pool (.checkReady (Pool.openConnection Pool.keepAliveForever 0 0) true), .handOut,
    .getRequests answer]

def cycleOfTwo : List (Action Nat) :=
  [.rates ⟨2, 2⟩, .pool .resize, .pool (.startTask 0), .pool (.finishConnecting 0 [some 0, some 0]),
    .pool (.appendNew 0), .start 900, .getConnections 900, .pool .prepareHandOut,
    .pool (.checkReady (Pool.openConnection Pool.keepAliveForever 0 0) true),
    .pool (.checkReady (Pool.openConnection Pool.keepAliveForever 1 0) true), .handOut,
    .getRequests (.ok [7]), .fill, .fill, .finishRequest 1 5, .pace 800]

def afterTwo : Session Nat := (run step (fresh .batch) cycleOfTwo).getD (fresh .batch)

theorem connections_accounted_cycleOfTwo :
    afterTwo.phase = .waiting ∧ afterTwo.passed.length = 2 ∧ Accounted afterTwo := by
  have hrun : run step (fresh .batch) cycleOfTwo = some afterTwo := by decide
  have hphase : afterTwo.phase = .waiting := by decide
  have halways := (connections_accounted_iff (fresh_opening .batch) hrun).mpr (by decide)
  exact ⟨hphase, by decide, halways.last hrun hphase⟩

def afterOne (mode : LoadGenerationMode) (answer : Except String (List Nat)) : Session Nat :=
  (run step (fresh mode) (cycleOfOne answer)).getD (fresh mode)

/-- Both senders return on an error, and the immediate one on an empty answer, with
the connection in hand: it is nowhere, and busy for good. -/
theorem failedCycle_loses :
    ¬ Always step (fun _ s => s.phase = .waiting → Accounted s) (fresh .immediate)
        (cycleOfOne (.error "no more data")) ∧
    ¬ Always step (fun _ s => s.phase = .waiting → Accounted s) (fresh .immediate)
        (cycleOfOne (.ok [])) ∧
    ¬ Always step (fun _ s => s.phase = .waiting → Accounted s) (fresh .batch)
        (cycleOfOne (.error "no more data")) ∧
    (afterOne .batch (.error "no more data")).obtained =
      [Pool.openConnection Pool.keepAliveForever 0 0] ∧
    (afterOne .batch (.error "no more data")).passed = [] ∧
    (afterOne .batch (.error "no more data")).world.pool.connections = [] ∧
    (afterOne .batch (.error "no more data")).world.pool.recyclableConnections = [] ∧
    (afterOne .batch (.error "no more data")).world.pool.newConnections = [] ∧
    (afterOne .batch (.error "no more data")).world.pool.busyConnections = 1 := by
  refine ⟨not_always_of_last (s := afterOne .immediate (.error "no more data")) ?_ ?_,
    not_always_of_last (s := afterOne .immediate (.ok [])) ?_ ?_,
    not_always_of_last (s := afterOne .batch (.error "no more data")) ?_ ?_, ?_⟩
  all_goals decide

variable {loop : Loop} {connections : List HttpConnection} {fill : Fill Req}

theorem fill_ends (hphase : s.phase = .filling loop connections fill)
    (hreq : 0 < fill.availableReq) :
    ∃ n t, run step s (List.replicate n .fill) = some t ∧
      t.phase = .pacing loop connections.length := by
  -- by the number of turns the copying can still take
  induction hn : fill.turns using Nat.strongRecOn generalizing s fill with
  | ind n ih =>
    have hstep : step s .fill = some (s.fillReq loop connections fill) := by
      simp only [step, hphase]
    unfold Session.fillReq at hstep
    split at hstep
    · rename_i fill' hnext
      obtain ⟨havailable, _, hturns⟩ := Fill.next_eq_some hnext
      obtain ⟨m, t, hrun, ht⟩ := ih fill'.turns (hn ▸ hturns hreq)
        (s := { s with phase := .filling loop connections fill' }) rfl (havailable ▸ hreq) rfl
      exact ⟨m + 1, t, run_cons_eq_some.mpr ⟨_, hstep, hrun⟩, ht⟩
    · exact ⟨1, _, by simpa using hstep, rfl⟩

def Spinning (loop : Loop) (connections : List HttpConnection) (s : Session Req) : Prop :=
  ∃ fill, s.phase = .filling loop connections fill ∧ fill.availableReq = 0 ∧
    fill.needToInsert ≠ 0

theorem Spinning.step (hs : Spinning loop connections s) (h : Cycle.step s a = some t) :
    Spinning loop connections t := by
  obtain ⟨fill, hphase, hreq, hneed⟩ := hs
  cases Steps.of_step h with
  | fill hphase' =>
    obtain ⟨rfl, rfl, rfl⟩ := Phase.filling.inj (hphase.symm.trans hphase')
    simp only [Session.fillReq, Fill.next_of_nothing hreq hneed]
    exact ⟨{ fill with i := 0 }, rfl, hreq, hneed⟩
  | finishRequest hi hworld => exact ⟨fill, hphase, hreq, hneed⟩
  | pool hb hworld => exact ⟨fill, hphase, hreq, hneed⟩
  | rates hphase' | start hphase' | getConnections hphase' | handOut hphase'
  | getRequests hphase' | pace hphase' | reconnect hphase' =>
    cases hphase.symm.trans hphase'

/-- `send_multiple_requests` never ends a cycle in which `get_requests` answers with
an empty vector, and the bundle stays with it. -/
theorem emptyAnswer_never_ends {as : List (Action Req)} (hs : Kept s)
    (hphase : s.phase = .generating loop connections) (hmode : s.mode = .batch)
    (hrun : run step s (.getRequests (.ok []) :: as) = some t) :
    Spinning loop connections t := by
  obtain ⟨u, hu, hrest⟩ := run_cons_eq_some.mp hrun
  obtain ⟨_, hne, _⟩ := hs.fits_of_phase hphase
  have hpos := List.length_pos_iff.mpr hne
  have hspin : Spinning loop connections u := by
    simp only [step, hphase, Session.sendRequests, hmode, reduceCtorEq, false_and, if_false,
      List.length_nil, hpos, if_true, Option.some.injEq] at hu
    rw [← hu]
    exact ⟨_, rfl, rfl, by simp only [Fill.start, List.length_nil]; omega⟩
  exact run_invariant (fun s a t => Spinning.step) hspin hrest

end Overload.Cycle
