import Overload.Secondary.OnePool

namespace Overload.Secondary

open Transition

namespace Handler

def senders : Handler → List Nat
  | .running _ tx | .parking _ tx | .notifying tx => [tx]
  | .removingPool _ tx | .removingListener _ tx => [tx]
  | _ => []

def dropping : Handler → List Nat
  | .removingMetrics _ tx => [tx]
  | _ => []

def settling : Handler → Nat
  | .registering _ | .running _ _ | .parking _ _ => 1
  | .removingPool _ _ | .removingListener _ _ => 1
  | _ => 0

def gone : Handler → Bool
  | .ended | .panicked | .aborted => true
  | _ => false

end Handler

structure News (parked : Nat) (sent : Nat → Bool) (channels : Nat)
    (receivers senders dropping : List Nat) (settling : Nat) : Prop where
  told : ∀ rx ∈ receivers, sent rx = true ∨ rx ∈ senders
  kept : receivers ≠ [] → 0 < parked + settling
  dropped : ∀ tx ∈ dropping, tx ∉ receivers
  fresh : ∀ tx ∈ receivers ++ senders ++ dropping, tx < channels

namespace News

variable {parked parked' channels settling settling' : Nat} {sent sent' : Nat → Bool}
  {receivers receivers' senders senders' dropping dropping' : List Nat}

theorem change (hs : News parked sent channels receivers senders dropping settling)
    (hreceivers : receivers' ⊆ receivers)
    (htold : ∀ rx ∈ receivers', sent rx = true ∨ rx ∈ senders → sent' rx = true ∨ rx ∈ senders')
    (hkept : receivers' ≠ [] → 0 < parked + settling → 0 < parked' + settling')
    (hdropped : ∀ tx ∈ dropping', tx ∈ dropping ∨ tx ∉ receivers')
    (hfresh : senders' ++ dropping' ⊆ senders ++ dropping) :
    News parked' sent' channels receivers' senders' dropping' settling' where
  told := fun rx hrx => htold rx hrx (hs.told rx (hreceivers hrx))
  kept := by
    intro hne
    refine hkept hne (hs.kept ?_)
    rintro rfl
    exact hne (List.subset_nil.mp hreceivers)
  dropped := by
    intro tx htx
    rcases hdropped tx htx with hold | hnew
    · exact fun hmem => hs.dropped tx hold (hreceivers hmem)
    · exact hnew
  fresh := by
    intro tx htx
    rw [List.append_assoc] at htx
    have hfresh' := hs.fresh tx
    rw [List.append_assoc] at hfresh'
    rcases List.mem_append.mp htx with hmem | hmem
    · exact hfresh' (List.mem_append_left _ (hreceivers hmem))
    · exact hfresh' (List.mem_append_right _ (hfresh hmem))

theorem register (hs : News parked sent channels receivers senders dropping (settling + 1))
    (sent' : Nat → Bool) (hsent : ∀ rx, sent rx = true → sent' rx = true) :
    News parked sent' (channels + 1) (channels :: receivers) (channels :: senders) dropping
      (settling + 1) where
  told := by
    intro rx hrx
    rcases List.mem_cons.mp hrx with rfl | hrx
    · exact .inr List.mem_cons_self
    · exact (hs.told rx hrx).imp (hsent rx) (List.mem_cons_of_mem channels)
  kept := fun _ => by omega
  dropped := by
    intro tx htx hmem
    have hlt := hs.fresh tx (by simp [htx])
    rcases List.mem_cons.mp hmem with rfl | hmem
    · exact Nat.lt_irrefl tx hlt
    · exact hs.dropped tx htx hmem
  fresh := by
    intro tx htx
    have hfresh := hs.fresh tx
    simp only [List.mem_append, List.mem_cons] at htx hfresh
    grind

end News

namespace Registry

def Informed (r : Registry) (receivers senders dropping : List Nat) (settling : Nat) : Prop :=
  News r.parked r.isSent r.channels.length (r.usageListener.toList ++ receivers) senders dropping
    settling

def InformedWith (r : Registry) (h : Handler) (receivers senders dropping : List Nat)
    (settling : Nat) : Prop :=
  r.Informed (h.receivers ++ receivers) (h.senders ++ senders) (h.dropping ++ dropping)
    (settling + h.settling)

def Leaves (receivers : List Nat) : Move → Prop
  | .receive .none | .receive (.request false) => False
  | .removeListener => receivers = []
  | _ => True

variable {r r' : Registry} {h h' : Handler} {m : Move}
  {receivers senders dropping : List Nat} {settling : Nat}

instance (receivers : List Nat) : DecidablePred (Leaves receivers)
  | .receive .none | .receive (.request false) => isFalse id
  | .removeListener => inferInstanceAs (Decidable (receivers = []))
  | .receive .timeout | .receive .error | .receive .metadata | .receive (.request true)
  | .receive .rates | .receive .reset | .receive .stop | .receive .finished
  | .lookUp | .notified | .closed | .timedOut | .polledAgain | .putBack | .takePool | .register
  | .parkPool | .notify | .removePool | .removeMetrics => isTrue trivial

theorem Leaves.mono {receivers' : List Nat} (hleaves : Leaves receivers m)
    (hsub : receivers' ⊆ receivers) : Leaves receivers' m := by
  cases m with
  | removeListener =>
    rw [show receivers = [] from hleaves] at hsub
    exact List.subset_nil.mp hsub
  | receive msg =>
    cases msg with
    | request prepared => cases prepared <;> exact hleaves
    | _ => exact hleaves
  | _ => trivial

theorem InformedWith.lookUp (hs : r.InformedWith .arrived receivers senders dropping settling) :
    r.lookUp.1.InformedWith r.lookUp.2 receivers senders dropping settling := by
  unfold Registry.lookUp
  split
  · rename_i rx hrx
    have hlistener : r.usageListener.toList = [rx] := by simp [hrx]
    rw [InformedWith, Informed, hlistener] at hs
    exact hs
  · exact hs.change (List.Subset.refl _) (fun _ _ => id)
      (fun _ _ => Nat.add_pos_right _ (Nat.succ_pos _)) (fun _ => .inl) (List.Subset.refl _)

theorem InformedWith.takePool (hs : r.InformedWith .taking receivers senders dropping settling) :
    r.takePool.1.InformedWith r.takePool.2 receivers senders dropping settling := by
  unfold Registry.takePool
  split
  · exact hs.change (List.Subset.refl _) (fun _ _ => id)
      (fun _ _ => Nat.add_pos_right _ (Nat.succ_pos _)) (fun _ => .inl) (List.Subset.refl _)
  · exact hs

theorem InformedWith.register {queuePool : Nat}
    (hs : r.InformedWith (.registering queuePool) receivers senders dropping settling) :
    (r.register queuePool).1.InformedWith (r.register queuePool).2 receivers senders dropping
      settling := by
  have hforget : News r.parked r.isSent r.channels.length receivers senders dropping
      (settling + 1) :=
    hs.change (List.subset_append_right _ _) (fun _ _ => id) (fun _ => id) (fun _ => .inl)
      (List.Subset.refl _)
  have hnews := hforget.register (r.register queuePool).1.isSent (by
    simp only [Registry.register, isSent, decide_eq_true_eq]
    grind)
  have hlength : r.channels.length + 1 = (r.channels ++ [Channel.unsent]).length := by simp
  rw [hlength] at hnews
  exact hnews

theorem InformedWith.notify {tx : Nat}
    (hs : r.InformedWith (.notifying tx) receivers senders dropping settling) :
    (r.settle tx .sent).InformedWith .ended receivers senders dropping settling := by
  have htx : tx < r.channels.length := hs.fresh tx (by simp [Handler.senders])
  have hnews : News r.parked (r.settle tx .sent).isSent r.channels.length
      (r.usageListener.toList ++ receivers) senders dropping settling := by
    refine hs.change (List.Subset.refl _) ?_ (fun _ => id) (fun _ => .inl) ?_
    · intro rx _ hold
      simp only [isSent, settle, Handler.senders, List.cons_append, List.nil_append,
        List.mem_cons, decide_eq_true_eq] at hold ⊢
      grind
    · exact List.subset_cons_self _ _
  rw [← List.length_set] at hnews
  exact hnews

theorem InformedWith.dropSender {queuePool tx : Nat}
    (hs : r.InformedWith (.removingMetrics queuePool tx) receivers senders dropping settling) :
    (r.settle tx .closed).InformedWith .ended receivers senders dropping settling := by
  have hnews : News r.parked (r.settle tx .closed).isSent r.channels.length
      (r.usageListener.toList ++ receivers) senders dropping settling := by
    have htx : tx ∉ r.usageListener.toList ++ receivers :=
      hs.dropped tx (by simp [Handler.dropping])
    refine hs.change (List.Subset.refl _) ?_ (fun _ => id) ?_ ?_
    · intro rx hrx hold
      refine hold.imp_left fun hsent => ?_
      have hne : tx ≠ rx := fun heq => htx (heq ▸ hrx)
      simpa [isSent, settle, List.getElem?_set_ne hne] using hsent
    · exact fun tx' hmem => .inl (List.mem_cons_of_mem tx hmem)
    · exact (List.Sublist.append_left (List.sublist_cons_self tx dropping) senders).subset
  rw [← List.length_set] at hnews
  exact hnews

theorem InformedWith.consume {rx : Nat}
    (hs : r.InformedWith (.waiting rx) receivers senders dropping settling)
    (hclosed : r.channels[rx]? = some .closed) :
    (r.settle rx .consumed).InformedWith (.givingUp rx) receivers senders dropping settling := by
  have hnews : News r.parked (r.settle rx .consumed).isSent r.channels.length
      (r.usageListener.toList ++ (rx :: receivers)) senders dropping settling := by
    refine hs.change (List.Subset.refl _) ?_ (fun _ => id) (fun _ => .inl) (List.Subset.refl _)
    intro rx' _ hold
    refine hold.imp_left fun hsent => ?_
    have hne : rx ≠ rx' := by
      rintro rfl
      simp [isSent, hclosed] at hsent
    simpa [isSent, settle, List.getElem?_set_ne hne] using hsent
  rw [← List.length_set] at hnews
  exact hnews

theorem InformedWith.receive {queuePool tx : Nat} {msg : Message}
    (hs : r.InformedWith (.running queuePool tx) receivers senders dropping settling)
    (hleaves : Leaves receivers (.receive msg)) :
    (r.receive queuePool tx msg).1.InformedWith (r.receive queuePool tx msg).2 receivers senders
      dropping settling := by
  cases msg with
  | none => exact hleaves.elim
  | request prepared =>
    cases prepared with
    | false => exact hleaves.elim
    | true => exact hs
  | _ => exact hs

theorem InformedWith.perform (hs : r.InformedWith h receivers senders dropping settling)
    (hleaves : Leaves receivers m) (hm : r.perform h m = some (r', h')) :
    r'.InformedWith h' receivers senders dropping settling := by
  cases Performs.of_perform hm with
  | lookUp => exact hs.lookUp
  | notified hsent =>
    refine hs.change ?_ (fun _ _ => id) (fun _ => id) (fun _ => .inl) (List.Subset.refl _)
    exact (List.Sublist.append_left (List.sublist_cons_self _ receivers) _).subset
  | closed hclosed => exact hs.consume hclosed
  | timedOut hunsent => exact hs
  | polledAgain hconsumed =>
    refine hs.change ?_ (fun _ _ => id) (fun _ => id) (fun _ => .inl) (List.Subset.refl _)
    exact (List.Sublist.append_left (List.sublist_cons_self _ receivers) _).subset
  | putBack =>
    exact hs.change (List.subset_append_right _ _) (fun _ _ => id) (fun _ => id) (fun _ => .inl)
      (List.Subset.refl _)
  | takePool => exact hs.takePool
  | register => exact hs.register
  | receive => exact hs.receive hleaves
  | parkPool =>
    exact hs.change (List.Subset.refl _) (fun _ _ => id)
      (fun _ _ => Nat.add_pos_left (Nat.succ_pos _) _) (fun _ => .inl) (List.Subset.refl _)
  | notify => exact hs.notify
  | removePool =>
    exact hs.change (List.Subset.refl _) (fun _ _ => id)
      (fun _ _ => Nat.add_pos_right _ (Nat.succ_pos _)) (fun _ => .inl) (List.Subset.refl _)
  | removeListener =>
    -- nobody holds a receiver any more
    obtain rfl : receivers = [] := hleaves
    refine hs.change (List.nil_subset _) (by simp [Handler.receivers]) ?_ ?_ ?_
    · exact fun hne => absurd rfl hne
    · exact fun tx _ => .inr List.not_mem_nil
    · intro tx hmem
      simp only [Handler.senders, Handler.dropping, List.mem_append] at hmem ⊢
      grind
  | removeMetrics => exact hs.dropSender

end Registry

open Registry

def Heard (r : Registry) (handlers : List Handler) : Prop :=
  r.Informed (handlers.flatMap Handler.receivers) (handlers.flatMap Handler.senders)
    (handlers.flatMap Handler.dropping) (handlers.map Handler.settling).sum

variable {r : Registry} {l₁ l₂ : List Handler} {h : Handler}

theorem heard_split : Heard r (l₁ ++ h :: l₂) ↔
    r.InformedWith h ((l₁ ++ l₂).flatMap Handler.receivers) ((l₁ ++ l₂).flatMap Handler.senders)
      ((l₁ ++ l₂).flatMap Handler.dropping) ((l₁ ++ l₂).map Handler.settling).sum := by
  have hreceivers :=
    (perm_flatMap_split Handler.receivers l₁ l₂ h).append_left r.usageListener.toList
  have hsenders := perm_flatMap_split Handler.senders l₁ l₂ h
  have hdropping := perm_flatMap_split Handler.dropping l₁ l₂ h
  rw [Heard, InformedWith, Informed, Informed, sum_map_split]
  constructor
  · intro hnews
    exact hnews.change hreceivers.symm.subset (fun rx _ => .imp_right hsenders.mem_iff.mp)
      (fun _ => id) (fun tx htx => .inl (hdropping.mem_iff.mpr htx))
      (hsenders.append hdropping).symm.subset
  · intro hnews
    exact hnews.change hreceivers.subset (fun rx _ => .imp_right hsenders.mem_iff.mpr)
      (fun _ => id) (fun tx htx => .inl (hdropping.mem_iff.mp htx))
      (hsenders.append hdropping).subset

theorem heard_connect {handlers : List Handler} (hs : Heard r handlers) :
    Heard r (handlers ++ [.arrived]) := by
  simpa [Heard, Handler.receivers, Handler.senders, Handler.dropping, Handler.settling] using hs

/-- No handler leaves because its channel was closed or a request could not be
prepared, and no handler holds a receiver when an exit on `Stop` or `Finished` takes
the entry out of the listener map. -/
def LeavesNews (_past : List Action) (s : System) : Action → Prop
  | .connect => True
  | .move _ m => Leaves (s.handlers.flatMap Handler.receivers) m

instance (past : List Action) (s : System) : DecidablePred (LeavesNews past s)
  | .connect => isTrue trivial
  | .move _ m => inferInstanceAs (Decidable (Leaves _ m))

theorem heard_step {past : List Action} {s t : System} {a : Action}
    (hs : Heard s.registry s.handlers) (hleaves : LeavesNews past s a)
    (hstep : step s a = some t) : Heard t.registry t.handlers := by
  rcases step_cases hstep with ⟨rfl, rfl⟩ | ⟨i, m, l₁, l₂, h₀, r', h', rfl, -, hsplit, hm, rfl⟩
  · exact heard_connect hs
  · rw [hsplit, heard_split] at hs
    refine heard_split.mpr (hs.perform (Leaves.mono hleaves ?_) hm)
    intro rx hrx
    rw [hsplit]
    exact (perm_flatMap_split Handler.receivers l₁ l₂ h₀).symm.subset
      (List.mem_append_right _ hrx)

def Registry.Open (r : Registry) : Prop :=
  r.usageListener = none ∨
    ∃ rx, r.usageListener = some rx ∧ r.isSent rx = true ∧ r.connectionPools.isSome = true

theorem Handler.settled_of_gone {h : Handler} (hgone : h.gone = true) :
    h.senders = [] ∧ h.settling = 0 := by
  cases h with
  | ended => exact ⟨rfl, rfl⟩
  | panicked => exact ⟨rfl, rfl⟩
  | aborted => exact ⟨rfl, rfl⟩
  | _ => cases hgone

theorem Heard.isOpen {handlers : List Handler} (hs : Heard r handlers)
    (hgone : ∀ h ∈ handlers, h.gone = true) : r.Open := by
  cases hrx : r.usageListener with
  | none => exact .inl hrx
  | some rx =>
    have hmem : rx ∈ r.usageListener.toList ++ handlers.flatMap Handler.receivers := by simp [hrx]
    have hsenders : handlers.flatMap Handler.senders = [] :=
      List.flatMap_eq_nil_iff.mpr fun h hh => (Handler.settled_of_gone (hgone h hh)).1
    have hsettling : (handlers.map Handler.settling).sum = 0 := by
      rw [List.sum_eq_zero_iff_forall_eq_nat]
      intro n hn
      obtain ⟨h, hh, rfl⟩ := List.mem_map.mp hn
      exact (Handler.settled_of_gone (hgone h hh)).2
    have hkept := hs.kept (List.ne_nil_of_mem hmem)
    have htold := hs.told rx hmem
    rw [hsenders] at htold
    rw [hsettling] at hkept
    refine .inr ⟨rx, hrx, htold.resolve_right List.not_mem_nil, ?_⟩
    cases hpool : r.connectionPools with
    | none => simp [parked, hpool] at hkept
    | some queuePool => rfl

def GetsPool (s : System) (i : Nat) : Prop :=
  ∃ (ms : List Move) (t : System) (queuePool tx : Nat),
    run step s (ms.map (Action.move i)) = some t ∧ t.handlers[i]? = some (.running queuePool tx)

/-- A handler that runs alone from its call of `init_connection_pool` on can get a
pool, and at no point of any such run does it give up or panic. -/
def InitReturns (s : System) : Prop :=
  GetsPool { s with handlers := s.handlers ++ [.arrived] } s.handlers.length ∧
  ∀ (ms : List Move) (t : System) (h : Handler),
    run step s (.connect :: ms.map (Action.move s.handlers.length)) = some t →
      t.handlers[s.handlers.length]? = some h →
        (∀ rx, h ≠ .givingUp rx) ∧ h ≠ .panicked ∧ h ≠ .aborted

def OnTrack (r : Registry) : Handler → Prop
  | .arrived => r.Open
  | .waiting rx => r.isSent rx = true ∧ r.connectionPools.isSome = true
  | .taking => r.connectionPools.isSome = true
  | .givingUp _ | .panicked | .aborted => False
  | _ => True

theorem OnTrack.lookUp (hs : OnTrack r .arrived) : OnTrack r.lookUp.1 r.lookUp.2 := by
  unfold Registry.lookUp
  split
  · rename_i rx hrx
    rcases hs with hnone | ⟨rx', hrx', hsent⟩
    · simp [hrx] at hnone
    · obtain rfl : rx = rx' := Option.some.inj (hrx.symm.trans hrx')
      exact hsent
  · trivial

theorem OnTrack.takePool (hs : OnTrack r .taking) : OnTrack r.takePool.1 r.takePool.2 := by
  unfold Registry.takePool
  split
  · trivial
  · rename_i hnone
    simp [OnTrack, hnone] at hs

theorem OnTrack.perform {r' : Registry} {h' : Handler} {m : Move} (hs : OnTrack r h)
    (hm : r.perform h m = some (r', h')) : OnTrack r' h' := by
  cases Performs.of_perform hm with
  | lookUp => exact hs.lookUp
  | notified hsent => exact hs.2
  | closed hclosed => simp [OnTrack, isSent, hclosed] at hs
  | timedOut hunsent => simp [OnTrack, isSent, hunsent] at hs
  | polledAgain hconsumed => simp [OnTrack, isSent, hconsumed] at hs
  | takePool => exact hs.takePool
  | receive =>
    unfold Registry.receive
    split <;> trivial
  | _ => trivial

theorem step_last {r' : Registry} {handlers : List Handler} {h' : Handler} {m : Move}
    (hm : r.perform h m = some (r', h')) :
    step ⟨r, handlers ++ [h]⟩ (.move handlers.length m) = some ⟨r', handlers ++ [h']⟩ := by
  simp [step, hm]

theorem run_last {handlers : List Handler} {ms : List Move} {t : System} (hs : OnTrack r h)
    (hrun : run step ⟨r, handlers ++ [h]⟩ (ms.map (Action.move handlers.length)) = some t) :
    ∃ r' h', t = ⟨r', handlers ++ [h']⟩ ∧ OnTrack r' h' := by
  induction ms generalizing r h with
  | nil =>
    cases hrun
    exact ⟨r, h, rfl, hs⟩
  | cons m ms ih =>
    obtain ⟨u, hu, hrest⟩ := run_cons_eq_some.mp hrun
    cases hm : r.perform h m with
    | none => simp [step, hm] at hu
    | some next =>
      obtain ⟨r', h'⟩ := next
      rw [step_last hm] at hu
      cases hu
      exact ih (hs.perform hm) hrest

theorem GetsPool.step {r' : Registry} {handlers : List Handler} {h' : Handler} {m : Move}
    (hm : r.perform h m = some (r', h')) (hgets : GetsPool ⟨r', handlers ++ [h']⟩ handlers.length) :
    GetsPool ⟨r, handlers ++ [h]⟩ handlers.length := by
  obtain ⟨ms, t, queuePool, tx, hrun, ht⟩ := hgets
  exact ⟨m :: ms, t, queuePool, tx, run_cons_eq_some.mpr ⟨_, step_last hm, hrun⟩, ht⟩

theorem GetsPool.registering (handlers : List Handler) (queuePool : Nat) :
    GetsPool ⟨r, handlers ++ [.registering queuePool]⟩ handlers.length := by
  apply GetsPool.step (m := .register) rfl
  exact ⟨[], _, queuePool, r.channels.length, rfl, by simp⟩

theorem GetsPool.taking (handlers : List Handler) (hpool : r.connectionPools.isSome = true) :
    GetsPool ⟨r, handlers ++ [.taking]⟩ handlers.length := by
  obtain ⟨queuePool, hpool⟩ := Option.isSome_iff_exists.mp hpool
  have htake : r.perform .taking .takePool =
      some ({ r with connectionPools := none }, .registering queuePool) := by
    simp [Registry.perform, Registry.takePool, hpool]
  exact .step htake (.registering handlers queuePool)

theorem GetsPool.arrived (handlers : List Handler) (hs : r.Open) :
    GetsPool ⟨r, handlers ++ [.arrived]⟩ handlers.length := by
  rcases hs with hnone | ⟨rx, hrx, hsent, hpool⟩
  · have hlook : r.perform .arrived .lookUp =
        some ({ r with nextPool := r.nextPool + 1 }, .registering r.nextPool) := by
      simp [Registry.perform, Registry.lookUp, hnone]
    exact .step hlook (.registering handlers r.nextPool)
  · have hlook : r.perform .arrived .lookUp =
        some ({ r with usageListener := none }, .waiting rx) := by
      simp [Registry.perform, Registry.lookUp, hrx]
    have hnotified : ({ r with usageListener := none } : Registry).perform (.waiting rx) .notified =
        some ({ r with usageListener := none }, .taking) := if_pos (by simpa [isSent] using hsent)
    exact .step hlook (.step hnotified (.taking handlers hpool))

theorem Registry.Open.initReturns {s : System} (hs : s.registry.Open) : InitReturns s := by
  refine ⟨.arrived s.handlers hs, ?_⟩
  intro ms t h hrun hh
  have htrack : OnTrack s.registry .arrived := hs
  obtain ⟨r', h', rfl, htrack'⟩ := run_last htrack hrun
  obtain rfl : h' = h := by simpa using hh
  cases h' <;> simp_all [OnTrack]

def NoLockOut (_past : List Action) (s : System) : Prop :=
  (∀ h ∈ s.handlers, h.gone = true) → s.registry.Open ∧ InitReturns s

def closeChannel : List Action :=
  [.connect, .move 0 .lookUp, .move 0 .register, .move 0 (.receive .none)]

def closedChannel : System := ⟨⟨none, some 0, [.closed], 1⟩, [.ended]⟩

/-- The next connection gives up and the one after it panics; only the third gets a pool. -/
def threeMore : List Action :=
  [.connect, .move 1 .lookUp, .move 1 .closed, .move 1 .putBack,
    .connect, .move 2 .lookUp, .move 2 .polledAgain, .connect, .move 3 .lookUp, .move 3 .register]

def gotPool : System :=
  ⟨⟨none, some 1, [.consumed, .unsent], 2⟩, [.ended, .ended, .aborted, .running 1 1]⟩

end Overload.Secondary
