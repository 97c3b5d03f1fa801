import Overload.Primary.Zero

namespace Overload.Primary

open Calls (Outcome)
open Transition
open Split (SplitRequestFile splitRanges)

variable {job : Job} {s t : State} {a : Action} {w : List MessageFromPrimary}

inductive Body : List MessageFromPrimary → Prop
  | nil : Body []
  | rates (rate : Cycle.RateMessage) {w : List MessageFromPrimary} :
    Body w → Body (.rates rate :: w)
  | reset (req : RequestSpecEnum) {w : List MessageFromPrimary} :
    Body w → Body (.reset :: .request req :: w)

/-- `Metadata (Reset)? Request (Rates | Reset Request)* Finished`. -/
def Conversation (w : List MessageFromPrimary) : Prop :=
  ∃ host reset req body, w = [.metadata host] ++ reset ++ [.request req] ++ body ++ [.finished] ∧
    (reset = [] ∨ reset = [.reset]) ∧ Body body

def Grammatical (w : List MessageFromPrimary) : Prop := ∃ rest, Conversation (w ++ rest)

inductive Reception (α : Type)
  | waiting
  | accepted (received : α) (rest : List MessageFromPrimary)
  | rejected (error : String)
  deriving DecidableEq, Repr

def checkForMetadataMsg : List MessageFromPrimary → Reception String
  | [] => .waiting
  | .metadata primaryHost :: rest => .accepted primaryHost rest
  | _ => .rejected "Expected MessageFromPrimary::Metadata, but didn't receive"

def checkForRequestMsg : Nat → List MessageFromPrimary → Reception RequestSpecEnum
  | 0, _ => .rejected "No message received"
  | _ + 1, [] => .waiting
  | _ + 1, .request req :: rest => .accepted req rest
  | tries + 1, .reset :: rest => checkForRequestMsg tries rest
  | _ + 1, _ => .rejected "Expected MessageFromPrimary::Request|Reset, but didn't receive"

def handshake (arrived : List MessageFromPrimary) : Reception RequestSpecEnum :=
  match checkForMetadataMsg arrived with
  | .waiting => .waiting
  | .accepted _ rest => checkForRequestMsg 2 rest
  | .rejected error => .rejected error

section Handshake

variable {rest tail : List MessageFromPrimary} {req : RequestSpecEnum}

theorem checkForRequestMsg_of_request (tries : Nat) (h : w ++ rest = .request req :: tail)
    (error : String) : checkForRequestMsg (tries + 1) w ≠ .rejected error := by
  cases w with
  | nil => simp [checkForRequestMsg]
  | cons m w =>
    obtain ⟨rfl, _⟩ := List.cons.inj h
    simp [checkForRequestMsg]

theorem checkForRequestMsg_of_reset (tries : Nat) (h : w ++ rest = .reset :: .request req :: tail)
    (error : String) : checkForRequestMsg (tries + 2) w ≠ .rejected error := by
  cases w with
  | nil => simp [checkForRequestMsg]
  | cons m w =>
    obtain ⟨rfl, hw⟩ := List.cons.inj h
    exact checkForRequestMsg_of_request tries hw error

theorem Grammatical.not_rejected (h : Grammatical w) (error : String) :
    handshake w ≠ .rejected error := by
  obtain ⟨rest, host, reset, req, body, hw, hreset, _⟩ := h
  cases w with
  | nil => simp [handshake, checkForMetadataMsg]
  | cons m w =>
    obtain ⟨rfl, htail⟩ := List.cons.inj hw
    rcases hreset with rfl | rfl
    · exact checkForRequestMsg_of_request 1 htail error
    · exact checkForRequestMsg_of_reset 0 htail error

end Handshake

inductive Stage
  | connected
  | greeted
  | resetFirst
  | serving
  | resetting
  | ended
  deriving DecidableEq, Repr

def Stage.next : Stage → MessageFromPrimary → Option Stage
  | .connected, .metadata _ => some .greeted
  | .greeted, .reset => some .resetFirst
  | .greeted, .request _ => some .serving
  | .resetFirst, .request _ => some .serving
  | .serving, .rates _ => some .serving
  | .serving, .reset => some .resetting
  | .serving, .finished => some .ended
  | .resetting, .request _ => some .serving
  | _, _ => none

def stage (w : List MessageFromPrimary) : Option Stage := run Stage.next .connected w

theorem stage_send {m : MessageFromPrimary} {sender : Sender} {q q' : Stage}
    (hq : stage sender.sent = some q) (hnext : q.next m = some q') :
    stage (sender.send m).sent = some q' :=
  run_concat_eq_some.mpr ⟨q, hq, hnext⟩

theorem Body.append {w w' : List MessageFromPrimary} (h : Body w) (h' : Body w') :
    Body (w ++ w') := by
  induction h with
  | nil => exact h'
  | rates rate _ ih => exact .rates rate ih
  | reset req _ ih => exact .reset req ih

def Opened (w : List MessageFromPrimary) : Prop :=
  ∃ host reset req body, w = [.metadata host] ++ reset ++ [.request req] ++ body ∧
    (reset = [] ∨ reset = [.reset]) ∧ Body body

def Stage.Shape (w : List MessageFromPrimary) : Stage → Prop
  | .connected => w = []
  | .greeted => ∃ host, w = [.metadata host]
  | .resetFirst => ∃ host, w = [.metadata host, .reset]
  | .serving => Opened w
  | .resetting => ∃ v, Opened v ∧ w = v ++ [.reset]
  | .ended => ∃ v, Opened v ∧ w = v ++ [.finished]

theorem Stage.Shape.next {q q' : Stage} {m : MessageFromPrimary} (h : q.Shape w)
    (hnext : q.next m = some q') : q'.Shape (w ++ [m]) := by
  cases q <;> cases m <;> simp only [Stage.next, Option.some.injEq, reduceCtorEq] at hnext
  all_goals subst hnext
  case connected.metadata host =>
    obtain rfl : w = [] := h
    exact ⟨host, rfl⟩
  case greeted.request req =>
    obtain ⟨host, rfl⟩ := h
    exact ⟨host, [], req, [], rfl, .inl rfl, .nil⟩
  case greeted.reset =>
    obtain ⟨host, rfl⟩ := h
    exact ⟨host, rfl⟩
  case resetFirst.request req =>
    obtain ⟨host, rfl⟩ := h
    exact ⟨host, [.reset], req, [], rfl, .inr rfl, .nil⟩
  case serving.rates rate =>
    obtain ⟨host, reset, req, body, rfl, hreset, hbody⟩ := h
    exact ⟨host, reset, req, body ++ [.rates rate], by simp, hreset,
      hbody.append (.rates rate .nil)⟩
  case serving.reset => exact ⟨w, h, rfl⟩
  case serving.finished => exact ⟨w, h, rfl⟩
  case resetting.request req' =>
    obtain ⟨v, ⟨host, reset, req, body, rfl, hreset, hbody⟩, rfl⟩ := h
    exact ⟨host, reset, req, body ++ [.reset, .request req'], by simp, hreset,
      hbody.append (.reset req' .nil)⟩

theorem shape_of_stage {q : Stage} (h : stage w = some q) : q.Shape w := by
  induction w using List.reverseRecOn generalizing q with
  | nil =>
    obtain rfl : Stage.connected = q := Option.some.inj h
    rfl
  | append_singleton w m ih =>
    obtain ⟨q₀, hq₀, hnext⟩ := run_concat_eq_some.mp h
    exact (ih hq₀).next hnext

theorem Stage.Shape.grammatical {q : Stage} (h : q.Shape w) : Grammatical w := by
  cases q with
  | connected =>
    obtain rfl : w = [] := h
    exact ⟨_, "", [], .requestList, [], rfl, .inl rfl, .nil⟩
  | greeted =>
    obtain ⟨host, rfl⟩ := h
    exact ⟨[.request .requestList, .finished], host, [], .requestList, [], rfl, .inl rfl, .nil⟩
  | resetFirst =>
    obtain ⟨host, rfl⟩ := h
    exact ⟨[.request .requestList, .finished], host, [.reset], .requestList, [], rfl, .inr rfl,
      .nil⟩
  | serving =>
    obtain ⟨host, reset, req, body, rfl, hreset, hbody⟩ := h
    exact ⟨[.finished], host, reset, req, body, rfl, hreset, hbody⟩
  | resetting =>
    obtain ⟨v, ⟨host, reset, req, body, rfl, hreset, hbody⟩, rfl⟩ := h
    exact ⟨[.request req, .finished], host, reset, req, body ++ [.reset, .request req], by simp,
      hreset, hbody.append (.reset req .nil)⟩
  | ended =>
    obtain ⟨v, ⟨host, reset, req, body, rfl, hreset, hbody⟩, rfl⟩ := h
    exact ⟨[], host, reset, req, body, by simp, hreset, hbody⟩

def Phase.Expects (job : Job) (id : String) (q : Stage) : Phase → Prop
  | .submitted | .done | .panicked => False
  | .requesting instances _ =>
    if id ∈ instances then q = .greeted ∨ q = .resetFirst
    else q = if requireReset job.request then .resetting else .serving
  | .endless _ => True
  | _ => q = .serving

structure Ordered (job : Job) (s : State) : Prop where
  senders : ∀ sender ∈ s.senders, ∃ q, stage sender.sent = some q ∧
    s.phase.Expects job sender.instanceId q
  closed : ∀ sender ∈ s.closed, ∃ q, stage sender.sent = some q

theorem sendSplits_mem {req : SplitRequestFile} {senders senders' : List Sender}
    {splits : List (Nat × Nat)} (h : sendSplits req senders splits = some senders') :
    ∀ sender' ∈ senders', ∃ sender ∈ senders, ∃ req',
      sender' = sender.send (.request req') := by
  induction senders generalizing senders' splits with
  | nil =>
    obtain rfl : [] = senders' := by simpa [sendSplits] using h
    simp
  | cons sender senders ih =>
    cases splits with
    | nil => cases h
    | cons range splits =>
      obtain ⟨rest, hrest, rfl⟩ := Option.map_eq_some_iff.mp h
      intro sender' hmem
      rcases List.mem_cons.mp hmem with rfl | hmem
      · exact ⟨sender, List.mem_cons_self, _, rfl⟩
      · obtain ⟨sender₀, hsender₀, hsend⟩ := ih hrest sender' hmem
        exact ⟨sender₀, List.mem_cons_of_mem sender hsender₀, hsend⟩

/-- The split file can be read whenever there is a channel to send its ranges on. -/
def Readable (job : Job) (s : State) : Action → Prop
  | .sendRequest readable =>
    requireReset job.request = true → s.senders ≠ [] → job.reads readable = true
  | _ => True

namespace Ordered

theorem new (stream : List (UInt32 × UInt32)) : Ordered job (.new stream) where
  senders := by simp [State.new]
  closed := by simp [State.new]

theorem serving (hs : Ordered job s) (h : ∀ id q, s.phase.Expects job id q → q = .serving) :
    ∀ sender ∈ s.senders, stage sender.sent = some .serving := by
  intro sender hsender
  obtain ⟨q, hq, hexpects⟩ := hs.senders sender hsender
  rw [hq, h _ q hexpects]

theorem panic (hs : Ordered job s) : Ordered job s.panic where
  senders := by simp [State.panic]
  closed := by
    intro sender hsender
    rcases List.mem_append.mp hsender with hsender | hsender
    · exact hs.closed sender hsender
    · obtain ⟨q, hq, _⟩ := hs.senders sender hsender
      exact ⟨q, hq⟩

theorem initSenders (hs : Ordered job s) (hphase : s.phase = .submitted)
    (secondaries : Option (List Node)) : Ordered job (s.initSenders job secondaries) := by
  obtain ⟨ids, hconnect, hids⟩ := s.connect_eq job secondaries
  simp only [State.initSenders, hconnect]
  refine ⟨?_, hs.closed⟩
  intro sender hsender
  rcases List.mem_append.mp hsender with hsender | hsender
  · obtain ⟨q, _, hexpects⟩ := hs.senders sender hsender
    rw [hphase] at hexpects
    exact hexpects.elim
  · obtain ⟨id, hid, rfl⟩ := List.mem_map.mp hsender
    exact ⟨.greeted, rfl, by simp [Phase.Expects, hid]⟩

theorem tick (hs : Ordered job s) (hphase : s.phase = .running) (stopped : Bool)
    (qps connectionCount : UInt32) (stream : List (UInt32 × UInt32)) :
    Ordered job (s.tick stopped qps connectionCount stream) := by
  have hserving := hs.serving (by simp [hphase, Phase.Expects])
  unfold State.tick
  split
  · exact ⟨fun sender hsender => ⟨_, hserving sender hsender, rfl⟩, hs.closed⟩
  · refine ⟨fun sender hsender => ⟨_, hserving sender hsender, ?_⟩, hs.closed⟩
    simp only
    split <;> rfl

theorem refresh (hs : Ordered job s) {qps connectionCount : UInt32}
    (hphase : s.phase = .refreshing qps connectionCount) (secondaries : Option (List Node)) :
    Ordered job (s.refresh job secondaries qps connectionCount) := by
  have hserving := hs.serving (by simp [hphase, Phase.Expects])
  obtain ⟨ids, hconnect, hids⟩ := s.connect_eq job secondaries
  simp only [State.refresh, hconnect]
  split
  · cases hreset : requireReset job.request with
    | true =>
      refine ⟨?_, hs.closed⟩
      simp only [if_true, State.reset, List.mem_map, forall_exists_index, and_imp]
      rintro _ sender hsender rfl
      rcases List.mem_append.mp hsender with hsender | hsender
      · refine ⟨.resetting, stage_send (hserving sender hsender) rfl, ?_⟩
        simp [Phase.Expects, Sender.send, hids sender hsender, hreset]
      · obtain ⟨id, hid, rfl⟩ := List.mem_map.mp hsender
        exact ⟨.resetFirst, rfl, by simp [Phase.Expects, Sender.send, hid]⟩
    | false =>
      refine ⟨?_, hs.closed⟩
      simp only [Bool.false_eq_true, if_false]
      intro sender hsender
      rcases List.mem_append.mp hsender with hsender | hsender
      · refine ⟨.serving, hserving sender hsender, ?_⟩
        simp [Phase.Expects, hids sender hsender, hreset]
      · obtain ⟨id, hid, rfl⟩ := List.mem_map.mp hsender
        exact ⟨.greeted, rfl, by simp [Phase.Expects, hid]⟩
  · rename_i hnone
    obtain rfl : ids = [] := not_not.mp hnone
    split
    · rename_i hdropped
      have hreset : requireReset job.request = true := (Bool.and_eq_true_iff.mp hdropped).1
      refine ⟨?_, hs.closed⟩
      simp only [State.reset, List.map_nil, List.append_nil, List.mem_map, forall_exists_index,
        and_imp]
      rintro _ sender hsender rfl
      refine ⟨.resetting, stage_send (hserving sender hsender) rfl, ?_⟩
      simp [Phase.Expects, hreset]
    · refine ⟨?_, hs.closed⟩
      simp only [List.map_nil, List.append_nil]
      exact fun sender hsender => ⟨_, hserving sender hsender, rfl⟩

theorem next_request {instances : List String} {rates : Option (UInt32 × UInt32)} {id : String}
    {q : Stage} (h : (Phase.requesting instances rates).Expects job id q)
    (hwaits : requireReset job.request = true ∨ id ∈ instances) (req : RequestSpecEnum) :
    q.next (.request req) = some .serving := by
  simp only [Phase.Expects] at h
  split at h
  · rcases h with rfl | rfl <;> rfl
  · rw [hwaits.resolve_right ‹_›] at h
    cases h
    rfl

theorem serving_split {senders senders' : List Sender} {instances : List String}
    {rates : Option (UInt32 × UInt32)} {readable : Bool} {req : SplitRequestFile}
    (hexpects : ∀ sender ∈ senders, ∃ q, stage sender.sent = some q ∧
      (Phase.requesting instances rates).Expects job sender.instanceId q)
    (hreq : job.request = .splitRequestFile req)
    (hreadable : senders ≠ [] → job.reads readable = true)
    (h : processAndSendRequest job readable req.clone senders = .returned senders') :
    ∀ sender ∈ senders', stage sender.sent = some .serving := by
  have hreset : requireReset job.request = true := by rw [hreq, requireReset]
  cases hreads : job.reads readable with
  | true =>
    obtain ⟨hsamples, hne⟩ := samples_of_returned hreads hreq h
    obtain ⟨file, ranges, sent, _, hsplits, hsends⟩ :=
      processAndSendRequest_sends hreads hreq hsamples hne
    obtain rfl : sent = senders' := Outcome.returned.inj (hsends.symm.trans h)
    intro sender' hsender'
    obtain ⟨sender, hsender, req', rfl⟩ := sendSplits_mem hsplits sender' hsender'
    obtain ⟨q, hq, hexpected⟩ := hexpects sender hsender
    exact stage_send hq (next_request hexpected (.inl hreset) req')
  | false =>
    -- nothing was read, but there was nobody to send it to
    rw [processAndSendRequest_unread hreads] at h
    obtain rfl := Outcome.returned.inj h
    have hempty : senders = [] := by
      by_contra hne
      exact absurd (hreads.symm.trans (hreadable hne)) Bool.false_ne_true
    simp [hempty]

theorem serving_other {senders : List Sender} {instances : List String}
    {rates : Option (UInt32 × UInt32)}
    (hexpects : ∀ sender ∈ senders, ∃ q, stage sender.sent = some q ∧
      (Phase.requesting instances rates).Expects job sender.instanceId q)
    (hreset : requireReset job.request = false) (req : RequestSpecEnum) :
    ∀ sender ∈ sendToInstances (.request req) instances senders,
      stage sender.sent = some .serving := by
  intro sender' hsender'
  obtain ⟨sender, hsender, rfl⟩ := List.mem_map.mp hsender'
  obtain ⟨q, hq, hexpected⟩ := hexpects sender hsender
  simp only [List.contains_iff_mem]
  split
  · rename_i hmem
    exact stage_send hq (next_request hexpected (.inr hmem) req)
  · rename_i hmem
    simp only [Phase.Expects, hmem, if_false, hreset, Bool.false_eq_true] at hexpected
    rw [hq, hexpected]

theorem sendRequest (hs : Ordered job s) {instances : List String}
    {rates : Option (UInt32 × UInt32)} (hphase : s.phase = .requesting instances rates)
    {readable : Bool} (hreadable : Readable job s (.sendRequest readable)) :
    Ordered job (s.sendRequest job readable instances rates) := by
  have hexpects := hs.senders
  rw [hphase] at hexpects
  unfold State.sendRequest
  split
  · exact hs.panic
  · refine ⟨fun sender hsender => ?_, hs.closed⟩
    obtain ⟨q, hq, _⟩ := hs.senders sender hsender
    exact ⟨q, hq, trivial⟩
  · rename_i senders hsend
    have hserving : ∀ sender ∈ senders, stage sender.sent = some .serving := by
      cases hreset : requireReset job.request with
      | true =>
        obtain ⟨req, hreq, hprocess⟩ :=
          sendRequestToSecondary_split hreset readable instances s.senders
        exact serving_split hexpects hreq (hreadable hreset) (hprocess.symm.trans hsend)
      | false =>
        rw [sendRequestToSecondary_other hreset, Outcome.returned.injEq] at hsend
        rw [← hsend]
        exact serving_other hexpects hreset _
    refine ⟨fun sender hsender => ⟨_, hserving sender hsender, ?_⟩, hs.closed⟩
    cases rates <;> rfl

theorem sendRateMessage (hs : Ordered job s) {qps connectionCount : UInt32}
    (hphase : s.phase = .sending qps connectionCount) (failing : List String) :
    Ordered job (s.sendRateMessage qps connectionCount failing) := by
  have hserving := hs.serving (by simp [hphase, Phase.Expects])
  unfold State.sendRateMessage
  split
  · exact ⟨fun sender hsender => ⟨_, hserving sender hsender, rfl⟩, hs.closed⟩
  · split
    · exact hs.panic
    · rename_i qs cs _
      have hsent : ∀ sender ∈ Primary.sendRates qs cs s.senders,
          stage sender.sent = some .serving := by
        intro sender' hsender'
        obtain ⟨pos, hpos, rfl⟩ := List.mem_mapIdx.mp hsender'
        exact stage_send (hserving _ (List.getElem_mem hpos)) rfl
      refine ⟨?_, ?_⟩
      · intro sender hsender
        exact ⟨_, hsent sender (List.mem_filter.mp hsender).1, rfl⟩
      · intro sender hsender
        rcases List.mem_append.mp hsender with hsender | hsender
        · exact hs.closed sender hsender
        · exact ⟨_, hsent sender (List.mem_filter.mp hsender).1⟩

theorem finish (hs : Ordered job s) (hphase : s.phase = .leaving) : Ordered job s.finish := by
  have hserving := hs.serving (by simp [hphase, Phase.Expects])
  refine ⟨by simp [State.finish], ?_⟩
  intro sender' hsender'
  rcases List.mem_append.mp hsender' with hsender' | hsender'
  · exact hs.closed sender' hsender'
  · obtain ⟨sender, hsender, rfl⟩ := List.mem_map.mp hsender'
    exact ⟨.ended, stage_send (hserving sender hsender) rfl⟩

theorem step (hs : Ordered job s) (hreadable : Readable job s a)
    (h : Primary.step job s a = some t) : Ordered job t := by
  cases Steps.of_step h with
  | initSenders hphase => exact hs.initSenders hphase _
  | tick hphase hstream => exact hs.tick hphase _ _ _ _
  | refresh hphase => exact hs.refresh hphase _
  | sendRequest hphase => exact hs.sendRequest hphase hreadable
  | sendRates hphase => exact hs.sendRateMessage hphase _
  | exhausted hphase hstream =>
    have hserving := hs.serving (by simp [hphase, Phase.Expects])
    exact ⟨fun sender hsender => ⟨_, hserving sender hsender, rfl⟩, hs.closed⟩
  | finish hphase => exact hs.finish hphase
  | rehash hperm =>
    exact ⟨fun sender hsender => hs.senders sender (hperm.subset hsender), hs.closed⟩

theorem grammatical (hs : Ordered job s) {sender : Sender}
    (hsender : sender ∈ s.senders ++ s.closed) : Grammatical sender.sent := by
  have hstage : ∃ q, stage sender.sent = some q := by
    rcases List.mem_append.mp hsender with hsender | hsender
    · obtain ⟨q, hq, _⟩ := hs.senders sender hsender
      exact ⟨q, hq⟩
    · exact hs.closed sender hsender
  obtain ⟨q, hq⟩ := hstage
  exact (shape_of_stage hq).grammatical

end Ordered

/-- On every channel that was ever opened the messages follow the grammar, and the
handshake at its other end does not reject them. -/
def Understood (s : State) : Prop :=
  ∀ sender ∈ s.senders ++ s.closed, Grammatical sender.sent ∧
    ∀ error, handshake sender.sent ≠ .rejected error

/-- In every run in which the split file can be read when it has to be split, every
channel follows the grammar. -/
theorem messages_understood (job : Job) (stream : List (UInt32 × UInt32)) (as : List Action)
    (hmeets : Meets (step job) (fun _ s a => Readable job s a) (.new stream) as) :
    Always (step job) (fun _ s => Understood s) (.new stream) as := by
  have hordered : Always (step job) (fun _ s => Ordered job s) (.new stream) as :=
    hmeets.always (.new stream) fun _ _ _ _ hs hreadable h => hs.step hreadable h
  refine hordered.mono ?_
  intro _ s hs sender hsender
  have hgrammatical := hs.grammatical hsender
  exact ⟨hgrammatical, hgrammatical.not_rejected⟩

instance (job : Job) (s : State) : (a : Action) → Decidable (Readable job s a)
  | .sendRequest _ => inferInstanceAs (Decidable (_ → _ → _))
  | .initSenders _ | .tick _ | .refresh _ | .sendRates _ | .exhausted | .finish | .rehash _ =>
    inferInstanceAs (Decidable True)

theorem messages_understood_oneTick :
    (ended [(5, 2)] oneTick).closed.length = 1 ∧ Understood (ended [(5, 2)] oneTick) := by
  have halways := messages_understood splitJob [(5, 2)] oneTick (by decide)
  exact ⟨by decide, halways.last (s := ended [(5, 2)] oneTick) (by decide)⟩

def unreadable : List Action :=
  [.initSenders (some [⟨"a", true⟩]), .sendRequest false, .tick false, .sendRates []]

theorem unreadable_rejected :
    ¬ Always (step splitJob) (fun _ s => Understood s) (.new [(5, 2)]) unreadable ∧
    (ended [(5, 2)] unreadable).senders = [⟨"a", [.metadata "primary", .rates ⟨5, 2⟩]⟩] ∧
    ¬ Grammatical [.metadata "primary", .rates ⟨5, 2⟩] ∧
    handshake [.metadata "primary", .rates ⟨5, 2⟩] =
      .rejected "Expected MessageFromPrimary::Request|Reset, but didn't receive" := by
  have hsenders : (ended [(5, 2)] unreadable).senders =
      [⟨"a", [.metadata "primary", .rates ⟨5, 2⟩]⟩] := by decide
  have hrejected : handshake [.metadata "primary", .rates ⟨5, 2⟩] =
      .rejected "Expected MessageFromPrimary::Request|Reset, but didn't receive" := by decide
  refine ⟨not_always_of_last (s := ended [(5, 2)] unreadable) (by decide) ?_, hsenders,
    fun h => h.not_rejected _ hrejected, hrejected⟩
  intro h
  obtain ⟨_, hnot⟩ := h ⟨"a", [.metadata "primary", .rates ⟨5, 2⟩]⟩ (by simp [hsenders])
  exact hnot _ hrejected

end Overload.Primary
