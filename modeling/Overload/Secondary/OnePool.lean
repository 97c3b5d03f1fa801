import Overload.Secondary.Registry

namespace Overload.Secondary

open Transition

namespace Handler

def pools : Handler → Nat
  | .registering _ | .running _ _ | .parking _ _ => 1
  | .removingPool _ _ | .removingListener _ _ | .removingMetrics _ _ => 1
  | _ => 0

def receivers : Handler → List Nat
  | .waiting rx | .givingUp rx => [rx]
  | _ => []

def claims : Handler → Nat
  | .notifying _ | .taking => 1
  | _ => 0

end Handler

def Registry.parked (r : Registry) : Nat := r.connectionPools.toList.length

def Registry.isSent (r : Registry) (rx : Nat) : Bool := r.channels[rx]? = some .sent

namespace System

def alive (s : System) : Nat := s.registry.parked + (s.handlers.map Handler.pools).sum

end System

theorem countP_le_succ {p q : Nat → Bool} {l : List Nat} (x : Nat)
    (hpq : ∀ y, q y = true → p y = true ∨ y = x) (hl : l.Nodup) :
    l.countP q ≤ l.countP p + 1 := by
  induction l with
  | nil => simp
  | cons y l ih =>
    obtain ⟨hy, hl⟩ := List.nodup_cons.mp hl
    simp only [List.countP_cons]
    by_cases hyx : y = x
    · have htail : l.countP q ≤ l.countP p := by
        apply List.countP_mono_left
        intro z hz hq
        refine (hpq z hq).resolve_right fun hzx => hy ?_
        rw [hyx, ← hzx]
        exact hz
      split <;> omega
    · have hhead : q y = true → p y = true := fun hq => (hpq y hq).resolve_right hyx
      have := ih hl
      split <;> grind

/-- The books of one job: the receivers that still exist, the pools the handlers own
and the claims they have on a parked one.  Every claim, an unread notification
included, is covered by the pool that is there. -/
structure Books (parked : Nat) (sent : Nat → Bool) (channels : Nat) (receivers : List Nat)
    (pools claims : Nat) : Prop where
  alive : parked + pools ≤ 1
  covered : claims + receivers.countP sent ≤ parked
  nodup : receivers.Nodup
  fresh : ∀ rx ∈ receivers, rx < channels

namespace Books

variable {parked channels pools claims : Nat} {sent : Nat → Bool} {receivers : List Nat}

theorem perm {receivers' : List Nat} (h : Books parked sent channels receivers pools claims)
    (hperm : receivers.Perm receivers') :
    Books parked sent channels receivers' pools claims where
  alive := h.alive
  covered := hperm.countP_eq sent ▸ h.covered
  nodup := hperm.nodup_iff.mp h.nodup
  fresh := fun rx hrx => h.fresh rx (hperm.mem_iff.mpr hrx)

theorem discard {rx : Nat} (h : Books parked sent channels (rx :: receivers) pools claims) :
    Books parked sent channels receivers pools claims where
  alive := h.alive
  covered := by
    have hcovered := h.covered
    rw [List.countP_cons] at hcovered
    omega
  nodup := (List.nodup_cons.mp h.nodup).2
  fresh := fun rx' hrx => h.fresh rx' (List.mem_cons_of_mem rx hrx)

theorem read {rx : Nat} (h : Books parked sent channels (rx :: receivers) pools claims)
    (hsent : sent rx = true) : Books parked sent channels receivers pools (claims + 1) where
  alive := h.alive
  covered := by
    have hcovered := h.covered
    rw [List.countP_cons, if_pos hsent] at hcovered
    omega
  nodup := h.discard.nodup
  fresh := h.discard.fresh

theorem make (h : Books parked sent channels receivers pools claims)
    (hfirst : parked + pools = 0) :
    Books parked sent channels receivers (pools + 1) claims where
  alive := by omega
  covered := h.covered
  nodup := h.nodup
  fresh := h.fresh

theorem take (h : Books 1 sent channels receivers pools (claims + 1)) :
    Books 0 sent channels receivers (pools + 1) claims where
  alive := by
    have := h.alive
    omega
  covered := by
    have := h.covered
    omega
  nodup := h.nodup
  fresh := h.fresh

theorem park (h : Books parked sent channels receivers (pools + 1) claims) :
    Books 1 sent channels receivers pools (claims + 1) where
  alive := by
    have := h.alive
    omega
  covered := by
    have halive := h.alive
    have hcovered := h.covered
    omega
  nodup := h.nodup
  fresh := h.fresh

theorem unpark (h : Books parked sent channels receivers (pools + 1) claims) :
    Books 0 sent channels receivers (pools + 1) claims where
  alive := by
    have := h.alive
    omega
  covered := by
    have halive := h.alive
    have hcovered := h.covered
    omega
  nodup := h.nodup
  fresh := h.fresh

theorem disown (h : Books parked sent channels receivers (pools + 1) claims) :
    Books parked sent channels receivers pools claims where
  alive := by
    have := h.alive
    omega
  covered := h.covered
  nodup := h.nodup
  fresh := h.fresh

theorem register (h : Books parked sent channels receivers pools claims) (sent' : Nat → Bool)
    (hsent : ∀ rx, sent' rx = true → sent rx = true) (hnew : sent' channels = false) :
    Books parked sent' (channels + 1) (channels :: receivers) pools claims where
  alive := h.alive
  covered := by
    have hcovered := h.covered
    have hmono := List.countP_mono_left (l := receivers) fun rx _ => hsent rx
    rw [List.countP_cons, hnew]
    simp only [Bool.false_eq_true, if_false]
    omega
  nodup := by
    refine List.nodup_cons.mpr ⟨fun hmem => ?_, h.nodup⟩
    exact Nat.lt_irrefl channels (h.fresh channels hmem)
  fresh := by
    intro rx hrx
    rcases List.mem_cons.mp hrx with rfl | hrx
    · exact Nat.lt_succ_self rx
    · exact Nat.lt_succ_of_lt (h.fresh rx hrx)

theorem drop (h : Books parked sent channels receivers pools claims) (sent' : Nat → Bool)
    (hsent : ∀ rx, sent' rx = true → sent rx = true) :
    Books parked sent' channels receivers pools claims where
  alive := h.alive
  covered := by
    have hmono := List.countP_mono_left (l := receivers) fun rx _ => hsent rx
    have := h.covered
    omega
  nodup := h.nodup
  fresh := h.fresh

theorem notify (h : Books parked sent channels receivers pools (claims + 1)) (tx : Nat)
    (sent' : Nat → Bool) (hsent : ∀ rx, sent' rx = true → sent rx = true ∨ rx = tx) :
    Books parked sent' channels receivers pools claims where
  alive := h.alive
  covered := by
    have hcount := countP_le_succ tx hsent h.nodup
    have := h.covered
    omega
  nodup := h.nodup
  fresh := h.fresh

end Books

namespace Registry

def Balanced (r : Registry) (receivers : List Nat) (pools claims : Nat) : Prop :=
  Books r.parked r.isSent r.channels.length (r.usageListener.toList ++ receivers) pools claims

variable {r r' : Registry} {h h' : Handler} {m : Move} {receivers : List Nat} {pools claims : Nat}

def BalancedWith (r : Registry) (h : Handler) (receivers : List Nat) (pools claims : Nat) : Prop :=
  r.Balanced (h.receivers ++ receivers) (pools + h.pools) (claims + h.claims)

theorem Balanced.forget {listener : Option Nat} {parked channels : Nat} {sent : Nat → Bool}
    (hs : Books parked sent channels (listener.toList ++ receivers) pools claims) :
    Books parked sent channels receivers pools claims := by
  cases listener with
  | none => exact hs
  | some rx => exact hs.discard

theorem isSent_settle {tx rx : Nat} {channel : Channel}
    (hsent : (r.settle tx channel).isSent rx = true) :
    r.isSent rx = true ∨ (rx = tx ∧ channel = .sent) := by
  simp only [isSent, settle, List.getElem?_set, decide_eq_true_eq] at hsent ⊢
  grind

theorem BalancedWith.lookUp (hs : r.BalancedWith .arrived receivers pools claims)
    (hfirst : r.usageListener = none → r.parked + pools = 0) :
    r.lookUp.1.BalancedWith r.lookUp.2 receivers pools claims := by
  unfold Registry.lookUp
  split
  · rename_i rx hrx
    change Books r.parked r.isSent r.channels.length (rx :: receivers) pools claims
    change Books r.parked r.isSent r.channels.length (r.usageListener.toList ++ receivers) pools
      claims at hs
    rwa [hrx] at hs
  · rename_i hnone
    exact Books.make hs (hfirst hnone)

theorem BalancedWith.takePool (hs : r.BalancedWith .taking receivers pools claims) :
    r.takePool.1.BalancedWith r.takePool.2 receivers pools claims ∧ r.takePool.2 ≠ .panicked := by
  have hcovered := hs.covered
  unfold Registry.takePool
  split
  · rename_i queuePool hpool
    refine ⟨?_, by simp⟩
    change Books r.parked r.isSent r.channels.length (r.usageListener.toList ++ receivers) pools
      (claims + 1) at hs
    rw [parked, hpool] at hs
    exact hs.take
  · rename_i hnone
    -- the books say that the pool is there, so the `unwrap` is safe
    simp [parked, hnone, Handler.claims] at hcovered

theorem BalancedWith.register {queuePool : Nat}
    (hs : r.BalancedWith (.registering queuePool) receivers pools claims) :
    (r.register queuePool).1.BalancedWith (r.register queuePool).2 receivers pools claims := by
  have hbooks := (Balanced.forget hs).register (r.register queuePool).1.isSent
    (by simp only [Registry.register, isSent, decide_eq_true_eq]; grind)
    (by simp [Registry.register, isSent])
  have hlength : r.channels.length + 1 = (r.channels ++ [Channel.unsent]).length := by simp
  rw [hlength] at hbooks
  exact hbooks

theorem Balanced.settle {tx : Nat} {channel : Channel} (hchannel : channel ≠ .sent)
    (hs : r.Balanced receivers pools claims) :
    (r.settle tx channel).Balanced receivers pools claims := by
  have hbooks := Books.drop hs (r.settle tx channel).isSent
    fun rx hsent => (isSent_settle hsent).resolve_right fun hnew => hchannel hnew.2
  rw [← List.length_set] at hbooks
  exact hbooks

theorem BalancedWith.settle_closed {tx : Nat} (queuePool : Nat)
    (hs : r.BalancedWith (.removingMetrics queuePool tx) receivers pools claims) :
    (r.settle tx .closed).BalancedWith .ended receivers pools claims :=
  Balanced.settle (by simp) (Books.disown hs)

theorem BalancedWith.notify {tx : Nat}
    (hs : r.BalancedWith (.notifying tx) receivers pools claims) :
    (r.settle tx .sent).BalancedWith .ended receivers pools claims := by
  have hbooks := Books.notify hs tx (r.settle tx .sent).isSent
    fun rx hsent => (isSent_settle hsent).imp_right And.left
  rw [← List.length_set] at hbooks
  exact hbooks

def MakesFirst (r : Registry) (pools : Nat) (h : Handler) : Prop :=
  h = .arrived → r.usageListener = none → r.parked + pools = 0

theorem BalancedWith.receive {queuePool tx : Nat} (msg : Message)
    (hs : r.BalancedWith (.running queuePool tx) receivers pools claims) :
    (r.receive queuePool tx msg).1.BalancedWith (r.receive queuePool tx msg).2 receivers pools
      claims := by
  cases msg with
  | none => exact settle_closed queuePool hs
  | request prepared =>
    cases prepared with
    | false => exact settle_closed queuePool hs
    | true => exact hs
  | _ => exact hs

theorem BalancedWith.perform (hs : r.BalancedWith h receivers pools claims)
    (hfirst : r.MakesFirst pools h) (hm : r.perform h m = some (r', h')) :
    r'.BalancedWith h' receivers pools claims ∧ h' ≠ .panicked := by
  cases Performs.of_perform hm with
  | lookUp =>
    refine ⟨hs.lookUp (hfirst rfl), ?_⟩
    unfold Registry.lookUp
    split <;> simp
  | notified hsent =>
    refine ⟨(Books.perm hs List.perm_middle).read ?_, by simp⟩
    simp [isSent, hsent]
  | closed hclosed => exact ⟨Balanced.settle (by simp) hs, by simp⟩
  | timedOut hunsent => exact ⟨hs, by simp⟩
  | polledAgain hconsumed => exact ⟨(Books.perm hs List.perm_middle).discard, by simp⟩
  | putBack => exact ⟨Balanced.forget hs, by simp⟩
  | takePool => exact hs.takePool
  | register => exact ⟨hs.register, by simp [Registry.register]⟩
  | @receive queuePool tx msg =>
    refine ⟨hs.receive msg, ?_⟩
    unfold Registry.receive
    split <;> simp
  | parkPool => exact ⟨Books.park hs, by simp⟩
  | notify => exact ⟨hs.notify, by simp⟩
  | removePool => exact ⟨Books.unpark hs, by simp⟩
  | removeListener => exact ⟨Balanced.forget hs, by simp⟩
  | removeMetrics => exact ⟨hs.settle_closed _, by simp⟩

end Registry

open Registry

def Sole (r : Registry) (handlers : List Handler) : Prop :=
  r.Balanced (handlers.flatMap Handler.receivers) (handlers.map Handler.pools).sum
    (handlers.map Handler.claims).sum

variable {r : Registry} {l₁ l₂ : List Handler} {h : Handler}

theorem sole_split : Sole r (l₁ ++ h :: l₂) ↔
    r.BalancedWith h ((l₁ ++ l₂).flatMap Handler.receivers) ((l₁ ++ l₂).map Handler.pools).sum
      ((l₁ ++ l₂).map Handler.claims).sum := by
  rw [Sole, BalancedWith, Registry.Balanced, Registry.Balanced, sum_map_split, sum_map_split]
  have hperm := (perm_flatMap_split Handler.receivers l₁ l₂ h).append_left r.usageListener.toList
  exact ⟨fun hbooks => hbooks.perm hperm, fun hbooks => hbooks.perm hperm.symm⟩

theorem sole_connect {handlers : List Handler} (hs : Sole r handlers) :
    Sole r (handlers ++ [.arrived]) := by
  simpa [Sole, Handler.receivers, Handler.pools, Handler.claims] using hs

/-- At most one pool of the job is alive, and a handler that has been notified finds
it in `CONNECTION_POOLS`. -/
def OnePool (_past : List Action) (s : System) : Prop :=
  s.alive ≤ 1 ∧ (.taking ∈ s.handlers → s.registry.connectionPools.isSome = true) ∧
    .panicked ∉ s.handlers

def StartsAlone (_past : List Action) (s : System) (a : Action) : Prop :=
  ∀ i, a = .move i .lookUp → s.handlers[i]? = some .arrived → s.registry.usageListener = none →
    s.alive = 0

instance (past : List Action) (s : System) : DecidablePred (StartsAlone past s)
  | .connect => isTrue (by simp [StartsAlone])
  | .move i m =>
    decidable_of_iff (m = .lookUp → s.handlers[i]? = some .arrived →
      s.registry.usageListener = none → s.alive = 0) (by
      constructor
      · rintro h _ ⟨⟩
        exact h rfl
      · rintro h rfl
        exact h i rfl)

theorem OnePool.of_sole {past : List Action} {s : System} (hs : Sole s.registry s.handlers)
    (hp : .panicked ∉ s.handlers) : OnePool past s := by
  refine ⟨hs.alive, ?_, hp⟩
  intro hmem
  obtain ⟨l₁, l₂, hsplit⟩ := List.append_of_mem hmem
  rw [hsplit, sole_split] at hs
  have hcovered := hs.covered
  cases hpool : s.registry.connectionPools with
  | some queuePool => rfl
  | none => simp [parked, hpool, Handler.claims] at hcovered

theorem sole_step {past : List Action} {s t : System} {a : Action}
    (hs : Sole s.registry s.handlers ∧ .panicked ∉ s.handlers) (halone : StartsAlone past s a)
    (hstep : step s a = some t) : Sole t.registry t.handlers ∧ .panicked ∉ t.handlers := by
  rcases step_cases hstep with ⟨rfl, rfl⟩ | ⟨i, m, l₁, l₂, h₀, r', h', rfl, hi, hsplit, hm, rfl⟩
  · exact ⟨sole_connect hs.1, by simpa using hs.2⟩
  · have hfirst : s.registry.MakesFirst ((l₁ ++ l₂).map Handler.pools).sum h₀ := by
      rintro rfl hnone
      have hlookUp : m = .lookUp := by cases m <;> simp [perform] at hm ⊢
      have hzero := halone i (by rw [hlookUp]) hi hnone
      rw [System.alive, hsplit, sum_map_split] at hzero
      omega
    rw [hsplit, sole_split] at hs
    obtain ⟨hsole, hnot⟩ := hs.1.perform hfirst hm
    refine ⟨sole_split.mpr hsole, ?_⟩
    have := hs.2
    simp only [List.mem_append, List.mem_cons] at this ⊢
    grind

theorem alive_lookUp {s t : System} {i : Nat} (hstep : step s (.move i .lookUp) = some t)
    (hnone : s.registry.usageListener = none) : t.alive = s.alive + 1 := by
  rcases step_cases hstep with
    ⟨hconnect, -⟩ | ⟨j, m, l₁, l₂, h₀, r', h', hmove, hi, hsplit, hm, rfl⟩
  · cases hconnect
  · obtain ⟨rfl, rfl⟩ := Action.move.inj hmove
    cases h₀ <;> simp [perform, lookUp, hnone] at hm
    obtain ⟨rfl, rfl⟩ := hm
    simp only [System.alive, hsplit, sum_map_split, Handler.pools, parked]
    omega

/-- One pool per job, along a run, comes to this: nobody looks for a receiver
between the moment a pool is made and the moment its receiver is in the map, nor
between the moment an exit takes the receiver out and the moment its pool is gone. -/
theorem one_pool_iff (as : List Action) (s : System) (hrun : run step .new as = some s) :
    Always step OnePool .new as ↔ Meets step StartsAlone .new as := by
  constructor
  · intro h
    refine h.meets ?_ hrun
    rintro past u a t hstep - hafter - i rfl - hnone
    have hone := hafter.1
    rw [alive_lookUp hstep hnone] at hone
    omega
  · intro h
    have hsole : Always step (fun _ s => Sole s.registry s.handlers ∧ .panicked ∉ s.handlers)
        .new as := by
      refine h.always ?_ (fun past u a t => sole_step)
      exact ⟨⟨by decide, by decide, by decide, by decide⟩, by decide⟩
    exact hsole.mono fun past u hu => .of_sole hu.1 hu.2

def reconnect : List Action :=
  [.connect, .move 0 .lookUp, .move 0 .register, .move 0 (.receive .rates),
    .move 0 (.receive .error), .connect, .move 1 .lookUp, .move 0 .parkPool, .move 0 .notify,
    .move 1 .notified, .move 1 .takePool, .move 1 .register]

def reconnected : System := ⟨⟨none, some 1, [.sent, .unsent], 1⟩, [.ended, .running 0 1]⟩

theorem one_pool_reconnect : Always step OnePool .new reconnect :=
  (one_pool_iff reconnect reconnected (by decide)).mpr (by decide)

def connectTwice : List Action :=
  [.connect, .connect, .move 0 .lookUp, .move 1 .lookUp]

def connectedTwice : System := ⟨⟨none, none, [], 2⟩, [.registering 0, .registering 1]⟩

def putBackLate : List Action :=
  [.connect, .move 0 .lookUp, .move 0 .register, .move 0 (.receive .stop),
    .connect, .move 1 .lookUp, .move 0 .removePool, .move 0 .removeListener,
    .move 0 .removeMetrics, .move 1 .closed, .connect, .move 2 .lookUp, .move 2 .register,
    .move 1 .putBack, .connect, .move 3 .lookUp, .move 3 .polledAgain, .connect, .move 4 .lookUp]

def twoAfterPutBack : System :=
  ⟨⟨none, none, [.consumed, .unsent], 3⟩,
    [.ended, .ended, .running 1 1, .aborted, .registering 2]⟩

theorem connectTwice_two_pools :
    (run step .new connectTwice = some connectedTwice ∧
      ¬ Always step OnePool .new connectTwice) ∧
    run step .new putBackLate = some twoAfterPutBack ∧
      ¬ Always step OnePool .new putBackLate := by
  have htwice : run step .new connectTwice = some connectedTwice := by decide
  have hlate : run step .new putBackLate = some twoAfterPutBack := by decide
  refine ⟨⟨htwice, not_always_of_last htwice fun hone => ?_⟩,
    hlate, not_always_of_last hlate fun hone => ?_⟩
  · exact absurd hone.1 (by decide)
  · exact absurd hone.1 (by decide)

end Overload.Secondary
