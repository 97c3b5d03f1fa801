import Overload.Primary.Zero

namespace Overload.Primary

open Calls (Outcome)
open Transition
open Split (SplitRequestFile splitRanges)

variable {job : Job} {s t : State} {a : Action} {rows : Nat} {senders : List Sender}

def assign (range : Option (Nat × Nat)) : MessageFromPrimary → Option (Nat × Nat)
  | .request (.splitRequestFile req) => some (req.rangeStartInclusive, req.rangeEndInclusive)
  | _ => range

def Sender.assigned (sender : Sender) : Option (Nat × Nat) := sender.sent.foldl assign none

@[simp] theorem Sender.assigned_send (sender : Sender) (msg : MessageFromPrimary) :
    (sender.send msg).assigned = assign sender.assigned msg := by
  simp [Sender.assigned, Sender.send]

def Covered (rows : Nat) (senders : List Sender) : Prop :=
  ∀ row, 1 ≤ row → row ≤ rows → ∃ sender ∈ senders, ∃ range ∈ sender.assigned,
    range.1 ≤ row ∧ row ≤ range.2

theorem Covered.mono {senders' : List Sender} (h : Covered rows senders)
    (hsub : ∀ sender ∈ senders, ∃ sender' ∈ senders', sender'.assigned = sender.assigned) :
    Covered rows senders' := by
  intro row hrow hle
  obtain ⟨sender, hsender, range, hrange, hmem⟩ := h row hrow hle
  obtain ⟨sender', hsender', hassigned⟩ := hsub sender hsender
  exact ⟨sender', hsender', range, hassigned ▸ hrange, hmem⟩

theorem Covered.append (h : Covered rows senders) (more : List Sender) :
    Covered rows (senders ++ more) :=
  h.mono fun sender hsender => ⟨sender, List.mem_append_left more hsender, rfl⟩

theorem Covered.map_send {msg : MessageFromPrimary} (h : Covered rows senders)
    (hmsg : ∀ range, assign range msg = range) : Covered rows (senders.map (Sender.send msg)) := by
  apply h.mono
  intro sender hsender
  exact ⟨sender.send msg, List.mem_map_of_mem hsender, by rw [Sender.assigned_send, hmsg]⟩

theorem Covered.sendRates (h : Covered rows senders) (qs cs : List Nat) :
    Covered rows (sendRates qs cs senders) := by
  apply h.mono
  intro sender hsender
  obtain ⟨pos, hpos, rfl⟩ := List.mem_iff_getElem.mp hsender
  refine ⟨_, List.mem_mapIdx.mpr ⟨pos, hpos, rfl⟩, ?_⟩
  rw [Sender.assigned_send]
  rfl

theorem covered_sendSplits {file : SplitRequestFile} {ranges : List (Nat × Nat)}
    {senders' : List Sender} (hsplits : Split.Splits rows senders.length ranges)
    (h : sendSplits file senders ranges = some senders') : Covered rows senders' := by
  rw [sendSplits_eq _ hsplits.length.symm, Option.some.injEq] at h
  rw [← h]
  intro row hrow hle
  obtain ⟨range, hrange, hmem⟩ := hsplits.cover row hrow hle
  obtain ⟨pos, hpos, rfl⟩ := List.mem_iff_getElem.mp hrange
  have hlength := hsplits.length
  refine ⟨_, List.mem_iff_getElem.mpr ⟨pos, by simp; omega, rfl⟩, ranges[pos], ?_, hmem⟩
  rw [List.getElem_zipWith, Sender.assigned_send]
  rfl

/-- Outside a reassignment: with no sender known to be lost, the senders cover the file. -/
def StaysComplete (job : Job) (s : State) : Prop :=
  (∀ instances rates, s.phase ≠ .requesting instances rates) → s.senderDropped = false →
    s.senders ≠ [] → Covered job.rows s.senders

def Phase.joined : Phase → List String
  | .requesting instances _ => instances
  | _ => []

/-- A reassignment succeeds, unless nobody is there to be assigned to, or the flag
still asks for another one, or it was made only because somebody joined the others. -/
def Reassigns (job : Job) (s : State) : Action → Prop
  | .sendRequest readable =>
    (job.reads readable = true ∧ job.samples = true) ∨ s.senders = [] ∨ s.senderDropped = true ∨
      (s.phase.joined ≠ [] ∧ ∃ sender ∈ s.senders, sender.instanceId ∉ s.phase.joined)
  | _ => True

structure Complete (job : Job) (s : State) : Prop where
  stays : StaysComplete job s
  joining : ∀ instances rates, s.phase = .requesting instances rates → instances ≠ [] →
    s.senderDropped = false → (∃ sender ∈ s.senders, sender.instanceId ∉ instances) →
    Covered job.rows s.senders

namespace Complete

theorem new (stream : List (UInt32 × UInt32)) : Complete job (.new stream) where
  stays := by simp [StaysComplete, State.new]
  joining := by simp [State.new]

theorem covered (hs : Complete job s) (hphase : ∀ instances rates,
    s.phase ≠ .requesting instances rates) (hflag : s.senderDropped = false)
    (hne : s.senders ≠ []) : Covered job.rows s.senders :=
  hs.stays hphase hflag hne

theorem of_loop (hphase : ∀ instances rates, s.phase ≠ .requesting instances rates)
    (h : s.senderDropped = false → s.senders ≠ [] → Covered job.rows s.senders) :
    Complete job s where
  stays := fun _ => h
  joining := fun instances rates hreq => absurd hreq (hphase instances rates)

theorem old_of_not_mem {ids : List String} {old : List Sender} {sent : List MessageFromPrimary}
    (h : ∃ sender ∈ old ++ ids.map fun id => ⟨id, sent⟩, sender.instanceId ∉ ids) :
    old ≠ [] := by
  rintro rfl
  obtain ⟨sender, hsender, hnot⟩ := h
  obtain ⟨id, hid, rfl⟩ := List.mem_map.mp hsender
  exact hnot hid

theorem initSenders (hs : Complete job s) (hphase : s.phase = .submitted)
    (secondaries : Option (List Node)) : Complete job (s.initSenders job secondaries) := by
  obtain ⟨ids, hconnect, _⟩ := s.connect_eq job secondaries
  simp only [State.initSenders, hconnect]
  refine ⟨fun hloop => absurd rfl (hloop ids none), ?_⟩
  rintro _ _ ⟨⟩ _ hflag hold
  have hcovered := hs.covered (by simp [hphase]) hflag (old_of_not_mem hold)
  exact hcovered.append _

theorem refresh (hs : Complete job s) (hsplit : requireReset job.request = true)
    {qps connectionCount : UInt32} (hphase : s.phase = .refreshing qps connectionCount)
    (secondaries : Option (List Node)) :
    Complete job (s.refresh job secondaries qps connectionCount) := by
  obtain ⟨ids, hconnect, _⟩ := s.connect_eq job secondaries
  simp only [State.refresh, hconnect, hsplit, Bool.true_and]
  split
  · refine ⟨fun hloop => absurd rfl (hloop ids _), ?_⟩
    rintro _ _ ⟨⟩ _ hflag hold
    obtain ⟨_, hreset, hnot⟩ := hold
    obtain ⟨sender, hsender, rfl⟩ := List.mem_map.mp hreset
    have hcovered := hs.covered (by simp [hphase]) hflag
      (old_of_not_mem ⟨sender, hsender, hnot⟩)
    exact (hcovered.append _).map_send fun range => rfl
  · rename_i hnone
    obtain rfl : ids = [] := not_not.mp hnone
    split
    · refine ⟨fun hloop => absurd rfl (hloop [] _), ?_⟩
      rintro _ _ ⟨⟩ hne
      exact absurd rfl hne
    · refine of_loop (by simp) ?_
      simp only [List.map_nil, List.append_nil]
      exact hs.covered (by simp [hphase])

theorem unassigned (hs : Complete job s) {instances : List String}
    {rates : Option (UInt32 × UInt32)} (hphase : s.phase = .requesting instances rates)
    {readable : Bool} (hreassigns : Reassigns job s (.sendRequest readable))
    (hnot : ¬ (job.reads readable = true ∧ job.samples = true)) (hflag : s.senderDropped = false)
    (hne : s.senders ≠ []) : Covered job.rows s.senders := by
  simp only [Reassigns, hphase, Phase.joined] at hreassigns
  rcases hreassigns with hread | hempty | hdropped | ⟨hinstances, hold⟩
  · exact absurd hread hnot
  · exact absurd hempty hne
  · exact absurd (hflag.symm.trans hdropped) Bool.false_ne_true
  · exact hs.joining instances rates hphase hinstances hflag hold

theorem sendRequest (hs : Complete job s) (hsplit : requireReset job.request = true)
    {instances : List String} {rates : Option (UInt32 × UInt32)}
    (hphase : s.phase = .requesting instances rates) {readable : Bool}
    (hreassigns : Reassigns job s (.sendRequest readable)) :
    Complete job (s.sendRequest job readable instances rates) := by
  obtain ⟨req, hreq, hprocess⟩ :=
    sendRequestToSecondary_split hsplit readable instances s.senders
  unfold State.sendRequest
  split
  · exact of_loop (by simp [State.panic]) (by simp [State.panic])
  · rename_i hsend
    rw [hprocess] at hsend
    refine of_loop (by simp) fun hflag hne => hs.unassigned hphase hreassigns ?_ hflag hne
    rintro ⟨hreads, hsamples⟩
    obtain ⟨_, _, _, _, _, hsends⟩ := processAndSendRequest_sends hreads hreq hsamples hne
    cases hsends.symm.trans hsend
  · rename_i senders hsend
    rw [hprocess] at hsend
    refine of_loop (by cases rates <;> simp) fun hflag hne => ?_
    cases hreads : job.reads readable with
    | true =>
      obtain ⟨hsamples, hsome⟩ := samples_of_returned hreads hreq hsend
      obtain ⟨file, ranges, sent, hranges, hsplits, hsends⟩ :=
        processAndSendRequest_sends hreads hreq hsamples hsome
      obtain rfl : sent = senders := Outcome.returned.inj (hsends.symm.trans hsend)
      exact covered_sendSplits hranges hsplits
    | false =>
      rw [processAndSendRequest_unread hreads] at hsend
      obtain rfl := Outcome.returned.inj hsend
      exact hs.unassigned hphase hreassigns (by simp [hreads]) hflag hne

theorem sendRateMessage (hs : Complete job s) {qps connectionCount : UInt32}
    (hphase : s.phase = .sending qps connectionCount) (failing : List String) :
    Complete job (s.sendRateMessage qps connectionCount failing) := by
  have hcovered := hs.covered (by simp [hphase])
  unfold State.sendRateMessage
  split
  · exact of_loop (by simp) hcovered
  · rename_i hne
    split
    · exact of_loop (by simp [State.panic]) (by simp [State.panic])
    · rename_i qs cs _
      refine of_loop (by simp) fun hflag _ => ?_
      simp only [Bool.or_eq_false_iff, Bool.not_eq_false_eq_eq_true, List.isEmpty_iff,
        List.filter_eq_nil_iff] at hflag
      obtain ⟨hflag, hnobody⟩ := hflag
      have hall : (Primary.sendRates qs cs s.senders).filter
          (fun sender => !failing.contains sender.instanceId) =
            Primary.sendRates qs cs s.senders := by
        rw [List.filter_eq_self]
        intro sender hsender
        simpa using hnobody sender hsender
      simp only [hall]
      exact (hcovered hflag (by simpa using hne)).sendRates qs cs

theorem step (hs : Complete job s) (hsplit : requireReset job.request = true)
    (hreassigns : Reassigns job s a) (h : step job s a = some t) : Complete job t := by
  cases Steps.of_step h with
  | initSenders hphase => exact hs.initSenders hphase _
  | tick hphase hstream =>
    have hcovered := hs.covered (by simp [hphase])
    unfold State.tick
    split
    · exact of_loop (by simp) hcovered
    · refine of_loop ?_ hcovered
      intro instances rates
      dsimp only
      split <;> simp
  | refresh hphase => exact hs.refresh hsplit hphase _
  | sendRequest hphase => exact hs.sendRequest hsplit hphase hreassigns
  | sendRates hphase => exact hs.sendRateMessage hphase _
  | exhausted hphase hstream => exact of_loop (by simp) (hs.covered (by simp [hphase]))
  | finish hphase => exact of_loop (by simp [State.finish]) (by simp [State.finish])
  | rehash hperm =>
    have hmono (hcovered : Covered job.rows s.senders) : Covered job.rows _ :=
      hcovered.mono fun sender hsender => ⟨sender, hperm.mem_iff.mpr hsender, rfl⟩
    refine ⟨fun hloop hflag hne => hmono (hs.stays hloop hflag ?_), ?_⟩
    · rintro hempty
      rw [hempty] at hperm
      exact hne hperm.eq_nil
    · rintro instances rates hphase hne hflag ⟨sender, hsender, hnot⟩
      exact hmono (hs.joining instances rates hphase hne hflag
        ⟨sender, hperm.mem_iff.mp hsender, hnot⟩)

end Complete

/-- In every run in which no reassignment is lost, the ranges stay complete. -/
theorem stays_complete (job : Job) (stream : List (UInt32 × UInt32)) (as : List Action)
    (hsplit : requireReset job.request = true)
    (hmeets : Meets (step job) (fun _ s a => Reassigns job s a) (.new stream) as) :
    Always (step job) (fun _ s => StaysComplete job s) (.new stream) as := by
  have hcomplete : Always (step job) (fun _ s => Complete job s) (.new stream) as :=
    hmeets.always (.new stream) fun _ _ _ _ hs hreassigns h => hs.step hsplit hreassigns h
  exact hcomplete.mono fun _ _ hs => hs.stays

instance (job : Job) (s : State) : (a : Action) → Decidable (Reassigns job s a)
  | .sendRequest _ => inferInstanceAs (Decidable (_ ∨ _ ∨ _ ∨ _ ∧ _))
  | .initSenders _ | .tick _ | .refresh _ | .sendRates _ | .exhausted | .finish | .rehash _ =>
    inferInstanceAs (Decidable True)

def elevenTicks : List (UInt32 × UInt32) := List.replicate 11 (5, 2)

def oneDropped (readable : Bool) : List Action :=
  [.initSenders (some [⟨"a", true⟩, ⟨"b", true⟩]), .sendRequest true, .tick false,
      .sendRates ["b"]] ++
    (List.replicate 9 [.tick false, .sendRates []]).flatten ++
    [.tick false, .refresh none, .sendRequest readable]

theorem stays_complete_oneDropped :
    (ended elevenTicks (oneDropped true)).senderDropped = false ∧
      Covered 3 (ended elevenTicks (oneDropped true)).senders := by
  have halways := stays_complete splitJob elevenTicks (oneDropped true) rfl (by decide)
  have hphase : (ended elevenTicks (oneDropped true)).phase = .sending 5 2 := by decide
  exact ⟨by decide, halways.last (s := ended elevenTicks (oneDropped true))
    (by decide) (by simp [hphase]) (by decide) (by decide)⟩

/-- The flag is cleared before the file is read: the rows of the lost secondary stay lost.
The same at the start of a job, where nobody has been assigned anything. -/
theorem reassignment_lost :
    ¬ Always (step splitJob) (fun _ s => StaysComplete splitJob s)
        (.new elevenTicks) (oneDropped false) ∧
    ¬ Always (step splitJob) (fun _ s => StaysComplete splitJob s) (.new [])
        [.initSenders (some [⟨"a", true⟩]), .sendRequest false] := by
  constructor
  · refine not_always_of_last (s := ended elevenTicks (oneDropped false)) (by decide) ?_
    intro h
    have hphase : (ended elevenTicks (oneDropped false)).phase = .sending 5 2 := by decide
    have hcovered := h (by simp [hphase]) (by decide) (by decide) 3 (by decide) (by decide)
    revert hcovered
    decide
  · refine not_always_of_last (s := ended [] [.initSenders (some [⟨"a", true⟩]),
      .sendRequest false]) (by decide) ?_
    intro h
    have hphase : (ended [] [.initSenders (some [⟨"a", true⟩]),
        .sendRequest false]).phase = .running := by decide
    have hcovered := h (by simp [hphase]) (by decide) (by decide) 1 (by decide) (by decide)
    revert hcovered
    decide

end Overload.Primary
