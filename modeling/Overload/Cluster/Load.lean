import Overload.Cycle.BatchSize
import Overload.Cycle.Custody
import Overload.Primary.Conservation
import Overload.Primary.Zero

namespace Overload.Cycle

open Transition

variable {Req : Type}

def heard (as : List (Action Req)) : List RateMessage :=
  as.filterMap fun a => match a with
    | .rates rate => some rate
    | _ => none

theorem heard_rates (past : List (Action Req)) (rate : RateMessage) :
    heard (past ++ [.rates rate]) = heard past ++ [rate] := by
  simp [heard]

theorem heard_concat (past : List (Action Req)) {a : Action Req} (ha : ∀ rate, a ≠ .rates rate) :
    heard (past ++ [a]) = heard past := by
  cases a with
  | rates rate => exact absurd rfl (ha rate)
  | _ => simp [heard]

structure Covered (s₀ : Session Req) (past : List (Action Req)) (s : Session Req) : Prop where
  paced : Paced (received past) s
  covered : tally step Session.dispatched s₀ past + received past ≤
    ((heard past).map RateMessage.qps).sum + s.passed.length

theorem Covered.le {s₀ s : Session Req} {past : List (Action Req)} (h : Covered s₀ past s) :
    tally step Session.dispatched s₀ past ≤ ((heard past).map RateMessage.qps).sum := by
  have hwithin := h.paced.dispatches.within
  have hcovered := h.covered
  omega

theorem Covered.step {s₀ s t : Session Req} {past : List (Action Req)} {a : Action Req}
    (hs : Covered s₀ past s) (hpast : run step s₀ past = some s) (h : step s a = some t) :
    Covered s₀ (past ++ [a]) t := by
  have hcovered := hs.covered
  by_cases ha : ∃ rate, a = .rates rate
  · obtain ⟨rate, rfl⟩ := ha
    have hle := hs.le
    cases Steps.of_step h with
    | rates hphase h =>
      refine ⟨received_rates past rate ▸ hs.paced.handleRateMsg h, ?_⟩
      rw [tally_concat _ hpast, received_rates, heard_rates, List.map_append, List.sum_append]
      simp only [Session.dispatched, Session.spawned, List.map_cons, List.map_nil, List.sum_cons,
        List.sum_nil, Option.map_none, Option.getD_none]
      omega
  · have ha : ∀ rate, a ≠ .rates rate := fun rate hrate => ha ⟨rate, hrate⟩
    refine ⟨received_concat past ha ▸ hs.paced.step ha h, ?_⟩
    have hone : t.passed.length = s.passed.length + s.dispatched a := by
      rw [passed_step ha h, List.length_append, Session.dispatched]
      cases s.spawned a <;> rfl
    rw [tally_concat _ hpast, received_concat past ha, heard_concat past ha, hone]
    omega

theorem Opening.paced {s₀ : Session Req} (h₀ : Opening s₀) : Paced 0 s₀ where
  reachable := h₀.reachable
  fits := by
    rw [h₀.phase]
    exact h₀.call
  budget := by simp [h₀.passed, h₀.phase, Phase.left]

theorem dispatched_le_heard {s₀ s : Session Req} {as : List (Action Req)} (h₀ : Opening s₀)
    (hrun : run step s₀ as = some s) :
    tally step Session.dispatched s₀ as ≤ ((heard as).map RateMessage.qps).sum := by
  suffices hcovered : Covered s₀ as s from hcovered.le
  induction as using List.reverseRecOn generalizing s with
  | nil =>
    cases hrun
    exact ⟨h₀.paced, by simp [heard, received, h₀.passed]⟩
  | append_singleton as a ih =>
    obtain ⟨u, hu, hstep⟩ := run_concat_eq_some.mp hrun
    exact (ih hu).step hu hstep

end Overload.Cycle

namespace Overload.Primary

open Transition
open Overload.Cycle (RateMessage)

def MessageFromPrimary.rate : MessageFromPrimary → Option RateMessage
  | .rates rate => some rate
  | _ => none

def Sender.rates (sender : Sender) : List RateMessage :=
  sender.sent.filterMap MessageFromPrimary.rate

section Measure

-- `f` is what is counted of a rate message, its requests or its connections
variable {f : RateMessage → Nat}

def Sender.load (f : RateMessage → Nat) (sender : Sender) : Nat := (sender.rates.map f).sum

def sumLoad (f : RateMessage → Nat) (senders : List Sender) : Nat :=
  (senders.map (Sender.load f)).sum

theorem sumLoad_append (senders senders' : List Sender) :
    sumLoad f (senders ++ senders') = sumLoad f senders + sumLoad f senders' := by
  simp [sumLoad]

theorem load_send_rates (sender : Sender) (rate : RateMessage) :
    (sender.send (.rates rate)).load f = sender.load f + f rate := by
  simp [Sender.load, Sender.rates, Sender.send, MessageFromPrimary.rate]

theorem load_send {m : MessageFromPrimary} (hm : m.rate = none) (sender : Sender) :
    (sender.send m).load f = sender.load f := by
  simp [Sender.load, Sender.rates, Sender.send, hm]

theorem sumLoad_send {m : MessageFromPrimary} (hm : m.rate = none) (senders : List Sender) :
    sumLoad f (senders.map (Sender.send m)) = sumLoad f senders := by
  rw [sumLoad, List.map_map]
  exact congrArg List.sum (List.map_congr_left fun sender _ => load_send hm sender)

theorem sumLoad_sendToInstances {m : MessageFromPrimary} (hm : m.rate = none)
    (instances : List String) (senders : List Sender) :
    sumLoad f (sendToInstances m instances senders) = sumLoad f senders := by
  rw [sumLoad, sendToInstances, List.map_map]
  refine congrArg List.sum (List.map_congr_left fun sender _ => ?_)
  simp only [Function.comp_apply]
  split
  · exact load_send hm sender
  · rfl

theorem sumLoad_sendSplits {req : Split.SplitRequestFile} {senders senders' : List Sender}
    {splits : List (Nat × Nat)} (h : sendSplits req senders splits = some senders') :
    sumLoad f senders' = sumLoad f senders := by
  induction senders generalizing senders' splits with
  | nil =>
    cases h
    rfl
  | cons sender senders ih =>
    cases splits with
    | nil => cases h
    | cons range splits =>
      obtain ⟨rest, hrest, rfl⟩ := Option.map_eq_some_iff.mp h
      have hrest := ih hrest
      simp only [sumLoad, List.map_cons, List.sum_cons] at hrest ⊢
      rw [load_send rfl, hrest]

theorem sumLoad_sendRequestToSecondary {job : Job} {readable : Bool} {instances : List String}
    {senders senders' : List Sender}
    (h : sendRequestToSecondary job readable instances senders = .returned senders') :
    sumLoad f senders' = sumLoad f senders := by
  cases hreset : requireReset job.request with
  | true =>
    obtain ⟨req, _, hprocess⟩ := sendRequestToSecondary_split hreset readable instances senders
    rw [hprocess] at h
    obtain rfl | ⟨file, ranges, hsent⟩ := returned_processAndSendRequest h
    · rfl
    · exact sumLoad_sendSplits hsent
  | false =>
    rw [sendRequestToSecondary_other hreset] at h
    cases h
    exact sumLoad_sendToInstances rfl instances senders

theorem sumLoad_sendRates {qs cs : List Nat} {senders : List Sender}
    (hqs : qs.length = senders.length) (hcs : cs.length = senders.length) :
    sumLoad f (sendRates qs cs senders) =
      sumLoad f senders + ((List.zipWith RateMessage.mk qs cs).map f).sum := by
  induction senders generalizing qs cs with
  | nil =>
    obtain rfl := List.length_eq_zero_iff.mp hqs
    rfl
  | cons sender senders ih =>
    cases qs with
    | nil => cases hqs
    | cons q qs =>
      cases cs with
      | nil => cases hcs
      | cons c cs =>
        have hrest := ih (Nat.succ.inj hqs) (Nat.succ.inj hcs)
        simp only [sumLoad, sendRates, List.mapIdx_cons, List.map_cons, List.sum_cons,
          List.getD_cons_zero, List.getD_cons_succ, List.zipWith_cons_cons,
          load_send_rates] at hrest ⊢
        omega

theorem sumLoad_perm {senders senders' : List Sender} (h : senders.Perm senders') :
    sumLoad f senders = sumLoad f senders' :=
  (h.map (Sender.load f)).sum_eq

def Additive (f : RateMessage → Nat) : Prop :=
  ∀ qs cs : List Nat, qs.length = cs.length →
    ((List.zipWith RateMessage.mk qs cs).map f).sum = f ⟨qs.sum, cs.sum⟩

theorem additive_qps : Additive RateMessage.qps :=
  fun _ _ hlength => congrArg List.sum (qps_of_rates hlength)

theorem additive_connections : Additive RateMessage.connections := by
  intro qs cs hlength
  rw [← List.map_uncurry_zip_eq_zipWith, List.map_map]
  exact congrArg List.sum (List.map_snd_zip (Nat.le_of_eq hlength.symm))

namespace State

/-- What was tried on all channels that were ever opened. -/
def load (f : RateMessage → Nat) (s : State) : Nat := sumLoad f (s.closed ++ s.senders)

def due (f : RateMessage → Nat) (s : State) : Action → Nat
  | .sendRates _ =>
    match s.phase with
    | .sending qps connectionCount =>
      if s.senders.isEmpty then 0 else f ⟨qps.toNat, connectionCount.toNat⟩
    | _ => 0
  | _ => 0

variable {job : Job} {s : State}

theorem load_panic : s.panic.load f = s.load f := by
  simp only [load, panic, List.append_nil]

theorem load_connect (secondaries : Option (List Node)) :
    (s.connect job secondaries).1.load f = s.load f := by
  obtain ⟨ids, hconnect, _⟩ := s.connect_eq job secondaries
  have hnew : sumLoad f (ids.map fun id => ⟨id, [.metadata job.primaryHost]⟩) = 0 := by
    rw [sumLoad, List.map_map, List.sum_eq_zero_iff]
    intro n hn
    obtain ⟨id, _, rfl⟩ := List.mem_map.mp hn
    rfl
  simp only [hconnect, load, sumLoad_append, hnew, Nat.add_zero]

theorem load_reset : s.reset.load f = s.load f := by
  simp only [load, reset, sumLoad_append, sumLoad_send (m := .reset) rfl]

theorem load_refresh (secondaries : Option (List Node)) (qps connectionCount : UInt32) :
    (s.refresh job secondaries qps connectionCount).load f = s.load f := by
  have hconnect : (s.connect job secondaries).1.load f = s.load f := load_connect secondaries
  unfold refresh
  generalize s.connect job secondaries = connected at hconnect ⊢
  obtain ⟨u, newNodes⟩ := connected
  simp only at hconnect ⊢
  rw [← hconnect]
  split
  · cases requireReset job.request with
    | true => exact load_reset (s := u)
    | false => rfl
  · split
    · exact load_reset (s := u)
    · rfl

theorem load_sendRequest (readable : Bool) (instances : List String)
    (rates : Option (UInt32 × UInt32)) :
    (s.sendRequest job readable instances rates).load f = s.load f := by
  unfold sendRequest
  split
  · exact load_panic
  · rfl
  · rename_i senders hsend
    simp only [load, sumLoad_append, sumLoad_sendRequestToSecondary hsend]

theorem load_sendRateMessage (hf : Additive f) {qps connectionCount : UInt32}
    (hfew : s.senders.length < 2 ^ 32) (failing : List String) :
    (s.sendRateMessage qps connectionCount failing).load f =
      s.load f + if s.senders.isEmpty then 0 else f ⟨qps.toNat, connectionCount.toNat⟩ := by
  unfold sendRateMessage
  split
  · rfl
  · rename_i hsome
    have hpos : 0 < s.senders.length := by
      simpa [List.length_pos_iff] using hsome
    obtain ⟨qs, cs, hshares, hqs, hcs⟩ :=
      (conserves_iff qps.toNat_lt connectionCount.toNat_lt hpos).mpr (.inl hfew)
    have hlength := hqs.length.trans hcs.length.symm
    have hsent := sumLoad_sendRates (f := f) hqs.length hcs.length
    rw [hf qs cs hlength, hqs.sum, hcs.sum] at hsent
    have hsplit := sumLoad_perm (f := f) (List.filter_append_perm
      (fun sender => failing.contains sender.instanceId) (Primary.sendRates qs cs s.senders))
    rw [hsent, sumLoad_append] at hsplit
    simp only [hshares, load, sumLoad_append]
    omega

theorem load_finish : s.finish.load f = s.load f := by
  simp only [load, finish, List.append_nil, sumLoad_append, sumLoad_send (m := .finished) rfl]

theorem load_step (hf : Additive f) {t : State} {a : Action} (hfew : s.senders.length < 2 ^ 32)
    (h : step job s a = some t) : t.load f = s.load f + s.due f a := by
  cases Steps.of_step h with
  | @initSenders secondaries _ =>
    have hconnect : (s.connect job secondaries).1.load f = s.load f := load_connect secondaries
    exact hconnect
  | tick _ _ =>
    simp only [due, Nat.add_zero, tick]
    split <;> rfl
  | refresh _ => exact load_refresh _ _ _
  | sendRequest _ => exact load_sendRequest _ _ _
  | sendRates hphase =>
    simp only [due, hphase]
    exact load_sendRateMessage hf hfew _
  | exhausted _ _ => rfl
  | finish _ => exact load_finish
  | rehash hperm =>
    simp only [load, due, sumLoad_append, sumLoad_perm hperm, Nat.add_zero]

theorem load_run (hf : Additive f) {stream : List (UInt32 × UInt32)} {as : List Action}
    (hfew : Meets (step job) (fun _ s _ => s.senders.length < 2 ^ 32) (.new stream) as)
    (hrun : run (step job) (.new stream) as = some s) :
    s.load f = tally (step job) (due f) (.new stream) as := by
  have halways : Always (step job)
      (fun past s => run (step job) (.new stream) past = some s ∧
        s.load f = tally (step job) (due f) (.new stream) past) (.new stream) as := by
    refine hfew.always ⟨rfl, rfl⟩ ?_
    rintro past u a t ⟨hpast, hload⟩ hfew h
    refine ⟨run_concat_eq_some.mpr ⟨u, hpast, h⟩, ?_⟩
    rw [load_step hf hfew h, hload, tally_concat _ hpast]
  exact (halways.last hrun).2

def pending (f : RateMessage → Nat) : Phase → Nat
  | .requesting _ (some (qps, connectionCount)) => f ⟨qps.toNat, connectionCount.toNat⟩
  | .refreshing qps connectionCount => f ⟨qps.toNat, connectionCount.toNat⟩
  | .sending qps connectionCount => f ⟨qps.toNat, connectionCount.toNat⟩
  | _ => 0

def planned (f : RateMessage → Nat) (stream : List (UInt32 × UInt32)) : Nat :=
  (stream.map fun tick => f ⟨tick.1.toNat, tick.2.toNat⟩).sum

def ahead (f : RateMessage → Nat) (s : State) : Nat := pending f s.phase + planned f s.stream

theorem ahead_tick {qps connectionCount : UInt32} {stream : List (UInt32 × UInt32)}
    (hstream : s.stream = (qps, connectionCount) :: stream) (stopped : Bool) :
    (s.tick stopped qps connectionCount stream).ahead f ≤ s.ahead f := by
  have hplanned : planned f s.stream =
      f ⟨qps.toNat, connectionCount.toNat⟩ + planned f stream := by
    rw [hstream, planned, List.map_cons, List.sum_cons, planned]
  unfold tick
  split
  · simp only [ahead, hplanned, pending]
    omega
  · simp only [ahead, hplanned]
    split <;> simp only [pending] <;> omega

theorem ahead_refresh {secondaries : Option (List Node)} {qps connectionCount : UInt32}
    (hphase : s.phase = .refreshing qps connectionCount) :
    (s.refresh job secondaries qps connectionCount).ahead f = s.ahead f := by
  obtain ⟨ids, hconnect, _⟩ := s.connect_eq job secondaries
  simp only [refresh, hconnect, ahead, hphase]
  split
  · cases requireReset job.request <;> rfl
  · split <;> rfl

theorem ahead_sendRequest {readable : Bool} {instances : List String}
    {rates : Option (UInt32 × UInt32)} (hphase : s.phase = .requesting instances rates) :
    (s.sendRequest job readable instances rates).ahead f ≤ s.ahead f := by
  unfold sendRequest
  split
  · simp [ahead, panic, pending]
  · simp [ahead, pending]
  · rw [ahead, ahead, hphase]
    cases rates with
    | none => rfl
    | some tick => rfl

theorem ahead_sendRateMessage {qps connectionCount : UInt32} (failing : List String) :
    (s.sendRateMessage qps connectionCount failing).ahead f = planned f s.stream := by
  unfold sendRateMessage
  split
  · simp [ahead, pending]
  · split <;> simp [ahead, pending, panic]

theorem ahead_step {t : State} {a : Action} (h : step job s a = some t) :
    s.due f a + t.ahead f ≤ s.ahead f := by
  cases Steps.of_step h with
  | initSenders hphase => simp [due, ahead, initSenders, pending]
  | tick _ hstream =>
    simp only [due, Nat.zero_add]
    exact ahead_tick hstream _
  | refresh hphase => simp [due, ahead_refresh hphase]
  | sendRequest hphase => simpa [due] using ahead_sendRequest hphase
  | sendRates hphase =>
    rw [ahead_sendRateMessage]
    simp only [due, ahead, hphase, pending]
    split <;> omega
  | exhausted _ _ => simp [due, ahead, pending]
  | finish _ => simp [due, ahead, finish, pending]
  | rehash _ => simp [due, ahead]

theorem due_run_le {stream : List (UInt32 × UInt32)} {as : List Action}
    (hrun : run (step job) (.new stream) as = some s) :
    tally (step job) (due f) (.new stream) as ≤ planned f stream := by
  suffices htotal : tally (step job) (due f) (.new stream) as + s.ahead f ≤ planned f stream by
    omega
  induction as using List.reverseRecOn generalizing s with
  | nil =>
    cases hrun
    simp [ahead, pending, State.new]
  | append_singleton as a ih =>
    obtain ⟨u, hu, hstep⟩ := run_concat_eq_some.mp hrun
    have hbefore := ih hu
    have hone := ahead_step (f := f) hstep
    rw [tally_concat _ hu]
    omega

end State

end Measure

end Overload.Primary

namespace Overload.Cluster

open Transition
open Primary
open Overload.Cycle (RateMessage Session)

variable {Req : Type}

/-- A handler of a secondary at the other end of a channel.  Its pool may be one that an
earlier handler of the job has left. -/
structure Handler (Req : Type) where
  opening : Session Req
  actions : List (Cycle.Action Req)
  session : Session Req
  opened : Cycle.Opening opening
  runs : run Cycle.step opening actions = some session

def Handler.dispatched (handler : Handler Req) : Nat :=
  tally Cycle.step Session.dispatched handler.opening handler.actions

/-- The handler has taken up some of the rate messages of its channel, in their order. -/
def Follows (channel : Sender) (handler : Handler Req) : Prop :=
  Cycle.heard handler.actions <+: channel.rates

instance (channel : Sender) (handler : Handler Req) : Decidable (Follows channel handler) :=
  inferInstanceAs (Decidable (_ <+: _))

theorem Follows.dispatched_le {channel : Sender} {handler : Handler Req}
    (h : Follows channel handler) : handler.dispatched ≤ channel.load RateMessage.qps :=
  Nat.le_trans (Cycle.dispatched_le_heard handler.opened handler.runs)
    ((h.sublist.map RateMessage.qps).sum_le_sum fun _ _ => Nat.zero_le _)

theorem sum_dispatched_le {channels : List Sender} {handlers : List (Handler Req)}
    (h : List.Forall₂ Follows channels handlers) :
    (handlers.map Handler.dispatched).sum ≤ sumLoad RateMessage.qps channels := by
  induction h with
  | nil => exact Nat.le_refl 0
  | cons hfollows _ ih =>
    simp only [sumLoad, List.map_cons, List.sum_cons] at ih ⊢
    exact Nat.add_le_add hfollows.dispatched_le ih

/-- What has been tried to send on the channels, the closed ones as well as those in use, is what
the ticks provided that found a node to send to. -/
theorem channels_carry_ticks (job : Job) (stream : List (UInt32 × UInt32))
    (as : List Primary.Action) (s : Primary.State)
    (hfew : Meets (Primary.step job) (fun _ s _ => s.senders.length < 2 ^ 32) (.new stream) as)
    (hrun : run (Primary.step job) (.new stream) as = some s) :
    s.load RateMessage.qps =
        tally (Primary.step job) (State.due RateMessage.qps) (.new stream) as ∧
      s.load RateMessage.connections =
        tally (Primary.step job) (State.due RateMessage.connections) (.new stream) as :=
  ⟨State.load_run additive_qps hfew hrun, State.load_run additive_connections hfew hrun⟩

/-- However the primary and the handlers of all its channels interleave, and whatever nodes
come, fail and come back, the cluster never has sent more than the ticks so far provide. -/
theorem cluster_within_schedule (job : Job) (stream : List (UInt32 × UInt32))
    (as : List Primary.Action) (s : Primary.State)
    (hfew : Meets (Primary.step job) (fun _ s _ => s.senders.length < 2 ^ 32) (.new stream) as)
    (hrun : run (Primary.step job) (.new stream) as = some s) (handlers : List (Handler Req))
    (hfollows : List.Forall₂ Follows (s.closed ++ s.senders) handlers) :
    (handlers.map Handler.dispatched).sum ≤
        tally (Primary.step job) (State.due RateMessage.qps) (.new stream) as ∧
      tally (Primary.step job) (State.due RateMessage.qps) (.new stream) as ≤
        State.planned RateMessage.qps stream := by
  refine ⟨?_, State.due_run_le hrun⟩
  rw [← State.load_run additive_qps hfew hrun]
  exact sum_dispatched_le hfollows

def twoNodes : List Primary.Action :=
  [.initSenders (some [⟨"a", true⟩, ⟨"b", true⟩]), .sendRequest true, .tick false, .sendRates []]

theorem channels_carry_ticks_twoNodes :
    (ended [(3, 3)] twoNodes).load RateMessage.qps =
        tally (Primary.step splitJob) (State.due RateMessage.qps) (.new [(3, 3)]) twoNodes ∧
      (ended [(3, 3)] twoNodes).load RateMessage.qps = 3 :=
  ⟨(channels_carry_ticks splitJob [(3, 3)] twoNodes _ (by decide) (by decide)).1, by decide⟩

theorem runs_cycleOfTwo :
    run Cycle.step (Cycle.fresh .batch) Cycle.cycleOfTwo = some Cycle.afterTwo := by
  decide

theorem runs_cycleOfOne :
    run Cycle.step (Cycle.fresh .batch) (Cycle.cycleOfOne (.ok [7])) =
      some (Cycle.afterOne .batch (.ok [7])) := by
  decide

def handlerOfTwo : Handler Nat :=
  ⟨_, Cycle.cycleOfTwo, _, Cycle.fresh_opening .batch, runs_cycleOfTwo⟩

def handlerOfOne : Handler Nat :=
  ⟨_, Cycle.cycleOfOne (.ok [7]), _, Cycle.fresh_opening .batch, runs_cycleOfOne⟩

theorem cluster_within_schedule_twoNodes :
    ([handlerOfTwo, handlerOfOne].map Handler.dispatched).sum = 3 ∧
      3 ≤ tally (Primary.step splitJob) (State.due RateMessage.qps) (.new [(3, 3)]) twoNodes := by
  have hdispatched : ([handlerOfTwo, handlerOfOne].map Handler.dispatched).sum = 3 := by decide
  have hwithin := cluster_within_schedule splitJob [(3, 3)] twoNodes (ended [(3, 3)] twoNodes)
    (by decide) (by decide) [handlerOfTwo, handlerOfOne] (by decide)
  exact ⟨hdispatched, hdispatched ▸ hwithin.1⟩

end Overload.Cluster
