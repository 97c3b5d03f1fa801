import Overload.Primary.Coverage
import Overload.Primary.Grammar

namespace Overload.Conversation

open Transition
open Primary
open Overload.Cycle (RateMessage)

def received : RequestSpecEnum → RequestSpecEnum
  | .splitRequestFile file => .splitRequestFile file.received
  | request => request

/-- The message loop.  `handled` has the rate messages, each with the request that its load
was made of, and `unexpected` what the loop has complained about. -/
structure Loop where
  requestSpec : RequestSpecEnum
  reset : Bool
  handled : List (RateMessage × RequestSpecEnum)
  unexpected : List MessageFromPrimary
  deriving DecidableEq, Repr

inductive Exit
  | stop
  | finish
  | errorExit
  | hungUp
  deriving DecidableEq, Repr

inductive Failure
  | refused (error : String)
  | notReceived
  | notPrepared
  | noPool
  deriving DecidableEq, Repr

/-- Where a handler stands.  It prepares the first request before the pool is made, and every
later one inside the loop. -/
inductive Connection
  | greeting
  | requesting (tries : Nat)
  | preparing (request : RequestSpecEnum)
  | initializing (request : RequestSpecEnum)
  | looping (loop : Loop)
  | repreparing (loop : Loop) (request : RequestSpecEnum)
  | left (loop : Loop) (exit : Exit)
  | failed (failure : Failure)
  deriving DecidableEq, Repr

inductive Action
  | receive (msg : MessageFromPrimary)
  | timeout
  | recvError
  | closed
  | prepare (succeeds : Bool)
  | initConnectionPool (succeeds : Bool)
  deriving DecidableEq, Repr

def greet (msg : MessageFromPrimary) : Connection :=
  match checkForMetadataMsg [msg] with
  | .waiting => .greeting
  | .accepted _ _ => .requesting 2
  | .rejected error => .failed (.refused error)

def request (tries : Nat) (msg : MessageFromPrimary) : Connection :=
  match checkForRequestMsg tries [msg] with
  | .waiting => .requesting (tries - 1)
  | .accepted req _ => .preparing (received req)
  | .rejected error => .failed (.refused error)

def Loop.receive (loop : Loop) (msg : MessageFromPrimary) : Connection :=
  match msg with
  | .metadata _ => .looping { loop with unexpected := loop.unexpected ++ [msg] }
  | .rates rate => .looping { loop with handled := loop.handled ++ [(rate, loop.requestSpec)] }
  | .stop => .left loop .stop
  | .finished => .left loop .finish
  | .reset => .looping { loop with reset := true }
  | .request req =>
    .repreparing
      { loop with unexpected := if loop.reset then loop.unexpected else loop.unexpected ++ [msg] }
      (received req)

def step : Connection → Action → Option Connection
  | .greeting, .receive msg => some (greet msg)
  | .requesting tries, .receive msg => some (request tries msg)
  | .greeting, .timeout | .greeting, .recvError | .greeting, .closed
  | .requesting _, .timeout | .requesting _, .recvError | .requesting _, .closed =>
    some (.failed .notReceived)
  | .preparing request, .prepare succeeds =>
    some (if succeeds then .initializing request else .failed .notPrepared)
  | .initializing request, .initConnectionPool succeeds =>
    some (if succeeds then .looping ⟨request, false, [], []⟩ else .failed .noPool)
  | .looping loop, .receive msg => some (loop.receive msg)
  | .looping loop, .timeout => some (.looping loop)
  | .looping loop, .recvError => some (.left loop .errorExit)
  | .looping loop, .closed => some (.left loop .hungUp)
  | .repreparing loop request, .prepare succeeds =>
    some (if succeeds then .looping { loop with requestSpec := request, reset := false }
      else .failed .notPrepared)
  | _, _ => none

def taken (as : List Action) : List MessageFromPrimary :=
  as.filterMap fun
    | .receive msg => some msg
    | _ => none

structure Account where
  inForce : Option RequestSpecEnum
  ticks : List (RateMessage × Option RequestSpecEnum)

def Account.next (account : Account) : MessageFromPrimary → Account
  | .request req => { account with inForce := some (received req) }
  | .rates rate => { account with ticks := account.ticks ++ [(rate, account.inForce)] }
  | _ => account

def account (w : List MessageFromPrimary) : Account := w.foldl Account.next ⟨none, []⟩

theorem account_concat (w : List MessageFromPrimary) (m : MessageFromPrimary) :
    account (w ++ [m]) = (account w).next m := by
  rw [account, List.foldl_append]
  rfl

def Loop.Keeps (loop : Loop) (account : Account) : Prop :=
  loop.unexpected = [] ∧ loop.handled.map (fun tick => (tick.1, some tick.2)) = account.ticks

def Connection.Follows (w : List MessageFromPrimary) : Connection → Prop
  | .greeting => stage w = some .connected ∧ (account w).ticks = []
  | .requesting tries =>
    (tries = 2 ∧ stage w = some .greeted ∨ tries = 1 ∧ stage w = some .resetFirst) ∧
      (account w).ticks = []
  | .preparing request | .initializing request =>
    stage w = some .serving ∧ (account w).inForce = some request ∧ (account w).ticks = []
  | .looping loop =>
    stage w = some (if loop.reset then .resetting else .serving) ∧
      (account w).inForce = some loop.requestSpec ∧ loop.Keeps (account w)
  | .repreparing loop request =>
    stage w = some .serving ∧ (account w).inForce = some request ∧ loop.Keeps (account w)
  | .left loop exit => (exit = .finish → stage w = some .ended) ∧ exit ≠ .stop ∧
      loop.Keeps (account w)
  | .failed failure => ∀ error, failure ≠ .refused error

variable {w : List MessageFromPrimary} {m : MessageFromPrimary} {c c' : Connection} {loop : Loop}
  {tries : Nat} {q : Stage}

theorem stage_concat {q₀ : Stage} (hq₀ : stage w = some q₀) (h : stage (w ++ [m]) = some q) :
    q₀.next m = some q := by
  obtain ⟨q₁, hq₁, hnext⟩ := run_concat_eq_some.mp h
  obtain rfl : q₁ = q₀ := Option.some.inj (hq₁.symm.trans hq₀)
  exact hnext

theorem follows_greet (h : Connection.Follows w .greeting) (hstage : stage (w ++ [m]) = some q) :
    (greet m).Follows (w ++ [m]) := by
  obtain ⟨hconnected, hticks⟩ := h
  have hnext := stage_concat hconnected hstage
  cases m with
  | metadata host =>
    cases hnext
    exact ⟨.inl ⟨rfl, hstage⟩, by rwa [account_concat]⟩
  | _ => cases hnext

theorem follows_request (h : Connection.Follows w (.requesting tries))
    (hstage : stage (w ++ [m]) = some q) : (request tries m).Follows (w ++ [m]) := by
  obtain ⟨⟨rfl, hgreeted⟩ | ⟨rfl, hreset⟩, hticks⟩ := h
  · have hnext := stage_concat hgreeted hstage
    cases m with
    | request req =>
      cases hnext
      refine ⟨hstage, ?_⟩
      rw [account_concat]
      exact ⟨rfl, hticks⟩
    | reset =>
      cases hnext
      exact ⟨.inr ⟨rfl, hstage⟩, by rwa [account_concat]⟩
    | _ => cases hnext
  · have hnext := stage_concat hreset hstage
    cases m with
    | request req =>
      cases hnext
      refine ⟨hstage, ?_⟩
      rw [account_concat]
      exact ⟨rfl, hticks⟩
    | _ => cases hnext

theorem follows_receive (h : Connection.Follows w (.looping loop))
    (hstage : stage (w ++ [m]) = some q) : (loop.receive m).Follows (w ++ [m]) := by
  obtain ⟨hserving, hforce, hunexpected, hhandled⟩ := h
  have hnext := stage_concat hserving hstage
  obtain ⟨requestSpec, reset, handled, unexpected⟩ := loop
  cases reset with
  | true =>
    -- only the new request can follow
    cases m with
    | request req =>
      cases hnext
      refine ⟨hstage, ?_⟩
      rw [account_concat]
      exact ⟨rfl, hunexpected, hhandled⟩
    | _ => cases hnext
  | false =>
    cases m with
    | rates rate =>
      cases hnext
      refine ⟨hstage, ?_⟩
      rw [account_concat]
      refine ⟨hforce, hunexpected, ?_⟩
      rw [List.map_append, hhandled, Account.next, hforce]
      rfl
    | reset =>
      cases hnext
      refine ⟨hstage, ?_⟩
      rw [account_concat]
      exact ⟨hforce, hunexpected, hhandled⟩
    | finished =>
      cases hnext
      refine ⟨fun _ => hstage, nofun, ?_⟩
      rw [account_concat]
      exact ⟨hunexpected, hhandled⟩
    | _ => cases hnext

theorem follows_step {a : Action} (h : c.Follows w) (hstep : step c a = some c')
    (hstage : stage (w ++ taken [a]) = some q) : c'.Follows (w ++ taken [a]) := by
  cases a with
  | receive msg =>
    cases c with
    | greeting =>
      cases hstep
      exact follows_greet h hstage
    | requesting tries =>
      cases hstep
      exact follows_request h hstage
    | looping loop =>
      cases hstep
      exact follows_receive h hstage
    | _ => cases hstep
  | prepare succeeds =>
    change c'.Follows (w ++ [])
    rw [List.append_nil]
    cases c with
    | preparing request =>
      cases hstep
      cases succeeds with
      | true => exact h
      | false => exact nofun
    | repreparing loop request =>
      cases hstep
      cases succeeds with
      | true => exact h
      | false => exact nofun
    | _ => cases hstep
  | initConnectionPool succeeds =>
    change c'.Follows (w ++ [])
    rw [List.append_nil]
    cases c with
    | initializing request =>
      cases hstep
      cases succeeds with
      | true => exact ⟨h.1, h.2.1, rfl, h.2.2.symm⟩
      | false => exact nofun
    | _ => cases hstep
  | _ =>
    change c'.Follows (w ++ [])
    rw [List.append_nil]
    cases c with
    | greeting =>
      cases hstep
      exact nofun
    | requesting tries =>
      cases hstep
      exact nofun
    | looping loop =>
      cases hstep
      first
        | exact h
        | exact ⟨nofun, nofun, h.2.2⟩
    | _ => cases hstep

theorem taken_concat (as : List Action) (a : Action) : taken (as ++ [a]) = taken as ++ taken [a] :=
  List.filterMap_append

theorem exists_stage_of_isPrefix {v : List MessageFromPrimary} (h : v <+: w)
    (hq : stage w = some q) : ∃ q', stage v = some q' := by
  obtain ⟨rest, rfl⟩ := h
  obtain ⟨q', hq', _⟩ := run_append_eq_some.mp hq
  exact ⟨q', hq'⟩

theorem follows_run {as : List Action} (hrun : run step .greeting as = some c)
    (hstage : stage (taken as) = some q) : c.Follows (taken as) := by
  induction as using List.reverseRecOn generalizing c q with
  | nil =>
    cases hrun
    exact ⟨rfl, rfl⟩
  | append_singleton as a ih =>
    obtain ⟨c₀, hc₀, hstep⟩ := run_concat_eq_some.mp hrun
    rw [taken_concat] at hstage ⊢
    obtain ⟨q₀, hq₀⟩ := exists_stage_of_isPrefix (List.prefix_append _ _) hstage
    exact follows_step (ih hc₀ hq₀) hstep hstage

namespace Connection

def loop? : Connection → Option Loop
  | .looping loop | .repreparing loop _ | .left loop _ => some loop
  | _ => none

/-- The handler has understood the messages `w` of a channel: it has refused none and found
none unexpected, and has worked off the ticks, each with the request that was sent last.  It
leaves at the end of the channel, unless the connection breaks. -/
structure Understands (c : Connection) (w sent : List MessageFromPrimary) : Prop where
  notRefused : ∀ error, c ≠ .failed (.refused error)
  expected : ∀ loop ∈ c.loop?, loop.unexpected = []
  ticks : ∀ loop ∈ c.loop?,
    loop.handled.map (fun tick => (tick.1, some tick.2)) = (account w).ticks
  leaves : ∀ loop exit, c = .left loop exit →
    exit = .finish ∧ w = sent ∨ exit = .errorExit ∨ exit = .hungUp

theorem Follows.keeps (h : c.Follows w) {loop : Loop} (hloop : loop ∈ c.loop?) :
    loop.Keeps (account w) := by
  cases c with
  | looping l =>
    cases hloop
    exact h.2.2
  | repreparing l request =>
    cases hloop
    exact h.2.2
  | left l exit =>
    cases hloop
    exact h.2.2
  | _ => cases hloop

theorem Follows.understands {sent : List MessageFromPrimary} (h : c.Follows w)
    (hpart : w <+: sent) (hsent : stage sent = some q) : c.Understands w sent where
  notRefused := by
    rintro error rfl
    exact h error rfl
  expected := fun _ hloop => (h.keeps hloop).1
  ticks := fun _ hloop => (h.keeps hloop).2
  leaves := by
    rintro loop exit rfl
    obtain ⟨hended, hstop, _⟩ := h
    cases exit with
    | stop => exact absurd rfl hstop
    | finish =>
      -- nothing can follow
      obtain ⟨rest, rfl⟩ := hpart
      obtain ⟨q₀, hq₀, hrest⟩ := run_append_eq_some.mp hsent
      obtain rfl : q₀ = .ended := Option.some.inj (hq₀.symm.trans (hended rfl))
      cases rest with
      | nil => exact .inl ⟨rfl, (List.append_nil w).symm⟩
      | cons m rest => cases hrest
    | errorExit => exact .inr (.inl rfl)
    | hungUp => exact .inr (.inr rfl)

end Connection

theorem exists_stage {job : Job} {s : State} (hs : Ordered job s) {sender : Sender}
    (hsender : sender ∈ s.senders ++ s.closed) : ∃ q, stage sender.sent = some q := by
  rcases List.mem_append.mp hsender with hsender | hsender
  · obtain ⟨q, hq, _⟩ := hs.senders sender hsender
    exact ⟨q, hq⟩
  · exact hs.closed sender hsender

/-- However the primary runs, and however far the handler at the other end of one of its
channels has got: it has understood what it has taken from the channel. -/
theorem handler_understands_channel (job : Job) (stream : List (UInt32 × UInt32))
    (as : List Primary.Action) (s : State)
    (hreadable : Meets (Primary.step job) (fun _ s a => Readable job s a) (.new stream) as)
    (hrun : run (Primary.step job) (.new stream) as = some s) (sender : Sender)
    (hsender : sender ∈ s.senders ++ s.closed) (cs : List Action) (c : Connection)
    (htaken : taken cs <+: sender.sent) (hc : run step .greeting cs = some c) :
    c.Understands (taken cs) sender.sent := by
  have hordered : Always (Primary.step job) (fun _ s => Ordered job s) (.new stream) as :=
    hreadable.always (.new stream) fun _ _ _ _ hs hreadable h => hs.step hreadable h
  obtain ⟨q, hq⟩ := exists_stage (hordered.last hrun) hsender
  obtain ⟨q', hq'⟩ := exists_stage_of_isPrefix htaken hq
  exact (follows_run hc hq').understands htaken hq

def allRows (size : Nat) : RequestSpecEnum :=
  .splitRequestFile ⟨"data.sqlite", false, size, 1, 3, 1⟩

def wholeConversation : List Action :=
  [.receive (.metadata "primary"), .receive (.request (allRows 3)), .prepare true,
    .initConnectionPool true, .timeout, .receive (.rates ⟨5, 2⟩), .receive .finished]

def afterOneTick : Connection :=
  .left ⟨allRows Split.defaultUsizeMax, false, [(⟨5, 2⟩, allRows Split.defaultUsizeMax)], []⟩
    .finish

theorem handler_understands_channel_oneTick :
    run step .greeting wholeConversation = some afterOneTick ∧
      afterOneTick.Understands (taken wholeConversation) (taken wholeConversation) := by
  have hc : run step .greeting wholeConversation = some afterOneTick := by decide
  refine ⟨hc, ?_⟩
  exact handler_understands_channel splitJob [(5, 2)] oneTick (ended [(5, 2)] oneTick) (by decide)
    (by decide) ⟨"a", taken wholeConversation⟩ (by decide) wholeConversation afterOneTick
    List.prefix_rfl hc

def Suits (job : Job) (m : MessageFromPrimary) : Prop :=
  ∀ req, m = .request req → requireReset req = requireReset job.request

def Suited (job : Job) (senders : List Sender) : Prop :=
  ∀ sender ∈ senders, ∀ m ∈ sender.sent, Suits job m

section Suited

variable {job : Job} {s t : State} {senders senders' : List Sender} {sender : Sender}

theorem suits_send (h : ∀ m ∈ sender.sent, Suits job m) (hm : Suits job m) :
    ∀ m' ∈ (sender.send m).sent, Suits job m' := by
  intro m' hm'
  rcases List.mem_append.mp hm' with hm' | hm'
  · exact h m' hm'
  · exact List.mem_singleton.mp hm' ▸ hm

theorem Suited.map_send (h : Suited job senders) (hm : Suits job m) :
    Suited job (senders.map (Sender.send m)) := by
  intro sender' hsender'
  obtain ⟨sender, hsender, rfl⟩ := List.mem_map.mp hsender'
  exact suits_send (h sender hsender) hm

theorem Suited.sendToInstances (h : Suited job senders) (hm : Suits job m)
    (instances : List String) : Suited job (sendToInstances m instances senders) := by
  intro sender' hsender'
  obtain ⟨sender, hsender, rfl⟩ := List.mem_map.mp hsender'
  split
  · exact suits_send (h sender hsender) hm
  · exact h sender hsender

theorem Suited.sendSplits {req : Split.SplitRequestFile} {splits : List (Nat × Nat)}
    (h : Suited job senders) (hsplit : requireReset job.request = true)
    (hsend : sendSplits req senders splits = some senders') : Suited job senders' := by
  induction senders generalizing senders' splits with
  | nil =>
    cases hsend
    exact h
  | cons sender senders ih =>
    cases splits with
    | nil => cases hsend
    | cons range splits =>
      obtain ⟨rest, hrest, rfl⟩ := Option.map_eq_some_iff.mp hsend
      obtain ⟨hsender, hsenders⟩ := List.forall_mem_cons.mp h
      refine List.forall_mem_cons.mpr ⟨suits_send hsender ?_, ih hsenders hrest⟩
      rintro _ ⟨⟩
      exact hsplit.symm

theorem Suited.sendRequestToSecondary {readable : Bool} {instances : List String}
    (h : Suited job senders)
    (hsend : sendRequestToSecondary job readable instances senders = .returned senders') :
    Suited job senders' := by
  cases hsplit : requireReset job.request with
  | true =>
    obtain ⟨req, _, hprocess⟩ := sendRequestToSecondary_split hsplit readable instances senders
    rw [hprocess] at hsend
    obtain rfl | ⟨file, ranges, hsent⟩ := returned_processAndSendRequest hsend
    · exact h
    · exact h.sendSplits hsplit hsent
  | false =>
    rw [sendRequestToSecondary_other hsplit] at hsend
    cases hsend
    refine h.sendToInstances ?_ instances
    rintro _ ⟨⟩
    rfl

theorem Suited.connect (h : Suited job s.senders) (secondaries : Option (List Node)) :
    Suited job (s.connect job secondaries).1.senders := by
  obtain ⟨ids, hconnect, _⟩ := s.connect_eq job secondaries
  rw [hconnect]
  intro sender hsender
  rcases List.mem_append.mp hsender with hsender | hsender
  · exact h sender hsender
  · obtain ⟨id, _, rfl⟩ := List.mem_map.mp hsender
    rintro m hm req rfl
    cases List.mem_singleton.mp hm

theorem Suited.refresh (h : Suited job s.senders) (secondaries : Option (List Node))
    (qps connectionCount : UInt32) :
    Suited job (s.refresh job secondaries qps connectionCount).senders := by
  have hconnect := h.connect secondaries
  unfold State.refresh
  generalize s.connect job secondaries = connected at hconnect ⊢
  obtain ⟨u, newNodes⟩ := connected
  have hreset : Suited job u.reset.senders := hconnect.map_send (m := .reset) nofun
  dsimp only
  split
  · cases requireReset job.request with
    | true => exact hreset
    | false => exact hconnect
  · split
    · exact hreset
    · exact hconnect

theorem Suited.sendRateMessage (h : Suited job s.senders) (qps connectionCount : UInt32)
    (failing : List String) :
    Suited job (s.sendRateMessage qps connectionCount failing).senders := by
  unfold State.sendRateMessage
  split
  · exact h
  · split
    · exact nofun
    · intro sender' hsender'
      obtain ⟨hmem, _⟩ := List.mem_filter.mp hsender'
      obtain ⟨pos, hpos, rfl⟩ := List.mem_mapIdx.mp hmem
      exact suits_send (h _ (List.getElem_mem hpos)) nofun

theorem Suited.step {a : Primary.Action} (h : Suited job s.senders)
    (hstep : Primary.step job s a = some t) : Suited job t.senders := by
  cases Steps.of_step hstep with
  | initSenders _ => exact h.connect _
  | tick _ _ =>
    unfold State.tick
    split <;> exact h
  | refresh _ => exact h.refresh _ _ _
  | sendRequest _ =>
    unfold State.sendRequest
    split
    · exact nofun
    · exact h
    · exact h.sendRequestToSecondary ‹_›
  | sendRates _ => exact h.sendRateMessage _ _ _
  | exhausted _ _ => exact h
  | finish _ => exact nofun
  | rehash hperm => exact fun sender hsender => h sender (hperm.subset hsender)

end Suited

def rangeOf : RequestSpecEnum → Option (Nat × Nat)
  | .splitRequestFile file => some (file.rangeStartInclusive, file.rangeEndInclusive)
  | _ => none

theorem assigned_eq (h : ∀ m ∈ w, ∀ req, m = .request req → requireReset req = true) :
    w.foldl assign none = (account w).inForce.bind rangeOf := by
  induction w using List.reverseRecOn with
  | nil => rfl
  | append_singleton w m ih =>
    rw [List.foldl_append, ih fun m' hm' => h m' (List.mem_append_left _ hm'), account_concat]
    cases m with
    | request req =>
      have hsplit := h (.request req) (by simp) req rfl
      cases req with
      | splitRequestFile file => rfl
      | _ => cases hsplit
    | _ => rfl

theorem last_tick {cs : List Action} {rate : RateMessage}
    (htaken : taken cs = w ++ [.rates rate]) (hserving : stage w = some .serving)
    (hc : run step .greeting cs = some (.looping loop)) :
    ∃ request, (account w).inForce = some request ∧
      loop.handled.getLast? = some (rate, request) := by
  have hstage : stage (taken cs) = some .serving := by
    rw [htaken]
    exact run_concat_eq_some.mpr ⟨_, hserving, rfl⟩
  obtain ⟨_, hforce, _, hhandled⟩ := follows_run hc hstage
  rw [htaken, account_concat] at hforce hhandled
  refine ⟨loop.requestSpec, hforce, ?_⟩
  have hlast := congrArg List.getLast? hhandled
  rw [List.getLast?_map, Account.next, List.getLast?_concat] at hlast
  obtain ⟨⟨rate', request⟩, hget, heq⟩ := Option.map_eq_some_iff.mp hlast
  obtain ⟨rfl, hrequest⟩ := Prod.mk.inj heq
  rw [hget, ← Option.some.inj (hrequest.trans hforce)]

/-- Whenever a tick of a split job is sent, with no sender known to be lost, every row of a file
without gaps is in the range that the handler of one of the channels has in force for this
tick. -/
theorem tick_covers_rows (job : Job) (stream : List (UInt32 × UInt32))
    (as : List Primary.Action) (s : State) (hsplit : requireReset job.request = true)
    (hreadable : Meets (Primary.step job) (fun _ s a => Readable job s a) (.new stream) as)
    (hreassigns : Meets (Primary.step job) (fun _ s a => Reassigns job s a) (.new stream) as)
    (hrun : run (Primary.step job) (.new stream) as = some s) (qps connectionCount : UInt32)
    (hphase : s.phase = .sending qps connectionCount) (hflag : s.senderDropped = false)
    (hne : s.senders ≠ []) (hgapless : job.table.Gapless) (row : Provider.Row)
    (hrow : row ∈ job.table.rows) :
    ∃ sender ∈ s.senders, ∀ rate cs loop, taken cs = sender.sent ++ [.rates rate] →
      run step .greeting cs = some (.looping loop) →
      ∃ file, loop.handled.getLast? = some (rate, .splitRequestFile file) ∧
        file.rangeStartInclusive ≤ row.rowid ∧ row.rowid ≤ file.rangeEndInclusive := by
  have hordered : Always (Primary.step job) (fun _ s => Ordered job s) (.new stream) as :=
    hreadable.always (.new stream) fun _ _ _ _ hs hreadable h => hs.step hreadable h
  have hcomplete : Always (Primary.step job) (fun _ s => Complete job s) (.new stream) as :=
    hreassigns.always (.new stream) fun _ _ _ _ hs hreassigns h => hs.step hsplit hreassigns h
  have hnew : Suited job (State.new stream).senders := nofun
  have hsuited : Suited job s.senders := run_invariant (I := fun s => Suited job s.senders)
    (fun _ _ _ hs h => Suited.step hs h) hnew hrun
  obtain ⟨i, hi, hle, hrowid⟩ := hgapless.rowid_within hrow
  obtain ⟨sender, hsender, range, hrange, hmem⟩ :=
    (hcomplete.last hrun).covered (by simp [hphase]) hflag hne i hi hle
  refine ⟨sender, hsender, fun rate cs loop htaken hc => ?_⟩
  have hserving : stage sender.sent = some .serving := by
    obtain ⟨q, hq, hexpects⟩ := (hordered.last hrun).senders sender hsender
    rw [hphase] at hexpects
    exact hexpects ▸ hq
  obtain ⟨request, hforce, hlast⟩ := last_tick htaken hserving hc
  have hassigned : sender.assigned = (account sender.sent).inForce.bind rangeOf :=
    assigned_eq fun m hm req hreq => (hsuited sender hsender m hm req hreq).trans hsplit
  rw [hassigned, hforce, Option.bind_some] at hrange
  cases request with
  | splitRequestFile file =>
    cases hrange
    rw [hrowid]
    exact ⟨file, hlast, Int.ofNat_le.mpr hmem.1, Int.ofNat_le.mpr hmem.2⟩
  | _ => cases hrange

theorem tick_covers_rows_oneTick :
    ∃ sender ∈ (ended [(5, 2)] (oneTick.take 3)).senders, ∀ rate cs loop,
      taken cs = sender.sent ++ [.rates rate] → run step .greeting cs = some (.looping loop) →
      ∃ file, loop.handled.getLast? = some (rate, .splitRequestFile file) ∧
        (file.rangeStartInclusive : Int) ≤ 2 ∧ (2 : Int) ≤ file.rangeEndInclusive :=
  tick_covers_rows splitJob [(5, 2)] (oneTick.take 3) _ rfl (by decide) (by decide) (by decide)
    5 2 (by decide) (by decide) (by decide) Provider.numbered_threeRows.rowids
    (Provider.plainRow 2 "/b") (List.mem_cons_of_mem _ List.mem_cons_self)

end Overload.Conversation
