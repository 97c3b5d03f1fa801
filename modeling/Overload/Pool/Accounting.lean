import Overload.Pool.Refinement

namespace Overload.Pool

open Transition

variable {elasticPool : Bool} {w w' : World}

theorem not_panicked (h : Reachable step (Initial elasticPool) w) : w.call ≠ .panicked := by
  intro hcall
  have hfits := (counts_sound h).fits
  simp [Counts.Fits, World.counts, hcall, Call.stage] at hfits

theorem busy_balance (h : Reachable step (Initial elasticPool) w) :
    w.pool.busyConnections =
      w.out + w.pool.recyclableConnections.length + w.call.stage.credited :=
  (counts_sound h).balance

theorem handOut_fits (h : Reachable step (Initial elasticPool) w)
    {connectionRequest dropped broken : Nat} {vec : List HttpConnection}
    (hcall : w.call = .checking connectionRequest [] vec dropped broken)
    (hstep : step w .handOut = some w') :
    vec.length ≤ connectionRequest ∧
      (w'.pool.elastic = false → vec ≠ [] →
        (w'.pool.busyConnections : Int) ≤ w'.pool.maxConnection) := by
  have hfits := (counts_sound h).fits
  simp only [Counts.Fits, World.counts, hcall, Call.stage, List.length_nil, Nat.zero_add]
    at hfits
  have hcounts := World.counts_handOut hcall
  simp only [step, hcall, Option.some.injEq] at hstep
  have hstage : w.counts.stage = .checking connectionRequest 0 vec.length (dropped + broken) := by
    simp [World.counts, hcall, Call.stage]
  simp only [Counts.step, hstage, hstep, Option.some.injEq] at hcounts
  have hbusy : w.pool.busyConnections + vec.length = w'.pool.busyConnections :=
    congrArg Counts.busy hcounts
  have hsize : w.pool.maxConnection = w'.pool.maxConnection := congrArg Counts.size hcounts
  have helastic : w.pool.elastic = w'.pool.elastic := congrArg Counts.elastic hcounts
  refine ⟨hfits.1, ?_⟩
  intro he hne
  have hpos : 0 < vec.length := List.length_pos_iff.mpr hne
  have hle := hfits.2 (helastic.trans he) hpos
  omega

theorem lends_nothing (h : Reachable step (Initial elasticPool) w)
    {connectionRequest dropped broken : Nat} {vec : List HttpConnection}
    (hcall : w.call = .checking connectionRequest [] vec dropped broken)
    (helastic : w.pool.elastic = false) (hsize : w.pool.maxConnection = 0) : vec = [] := by
  have hstep : step w .handOut = some (w.handOut vec dropped broken) := by
    simp only [step, hcall]
  have hfits := (handOut_fits h hcall hstep).2
  by_contra hne
  have hpos := List.length_pos_iff.mpr hne
  have hbusy := hfits (by simpa [World.handOut, World.refill] using helastic) hne
  simp [World.handOut, World.refill, hsize] at hbusy
  omega

/-- The accounts of the pool, over every interleaving of its owner, its request
tasks and its spawned tasks. -/
theorem pool_accounting (h : Reachable step (Initial elasticPool) w) :
    (w.call = .idle →
      w.pool.busyConnections =
        (w.handedOut.length + w.returning.length) + w.pool.recyclableConnections.length) ∧
    w.pool.busyConnections =
      (w.handedOut.length + w.returning.length) + w.pool.recyclableConnections.length +
        w.call.stage.credited ∧
    (∀ connectionRequest returnedToPool,
      w.call = .claiming connectionRequest returnedToPool →
        returnedToPool ≤ w.pool.busyConnections) ∧
    w.call ≠ .panicked ∧
    (∀ connectionRequest vec dropped broken w',
      w.call = .checking connectionRequest [] vec dropped broken →
      step w .handOut = some w' →
        vec.length ≤ connectionRequest ∧
        (w'.pool.elastic = false → vec ≠ [] →
          (w'.pool.busyConnections : Int) ≤ w'.pool.maxConnection)) := by
  have hbal : w.pool.busyConnections =
      (w.handedOut.length + w.returning.length) + w.pool.recyclableConnections.length +
        w.call.stage.credited := busy_balance h
  refine ⟨?_, hbal, ?_, not_panicked h, ?_⟩
  · intro hcall
    simpa [hcall, Call.stage, Stage.credited] using hbal
  · intro connectionRequest returnedToPool hcall
    simp only [hcall, Call.stage, Stage.credited] at hbal
    omega
  · intro connectionRequest vec dropped broken w' hcall hstep
    exact handOut_fits h hcall hstep

def keepAliveForever : ConnectionKeepAlive := ⟨4294967295, 4294967295, by decide⟩

def lendOne : List Action :=
  [.setConnectionCount 2, .resize, .startTask 0, .finishConnecting 0 [some 0, none], .appendNew 0,
    .getConnections 2, .prepareHandOut,
    .checkReady (openConnection keepAliveForever 0 0) true]

def lentOne : World :=
  (run step (.new keepAliveForever false) lendOne).getD (.new keepAliveForever false)

theorem lentOne_reachable : Reachable step (Initial false) lentOne :=
  ⟨.new keepAliveForever false, lendOne, ⟨keepAliveForever, rfl⟩, by decide⟩

def lentOneAfter : World := lentOne.handOut [openConnection keepAliveForever 0 0] 0 0

theorem pool_accounting_lentOne :
    lentOneAfter.handedOut ≠ [] ∧
      (lentOneAfter.pool.busyConnections : Int) ≤ lentOneAfter.pool.maxConnection := by
  refine ⟨by decide, ?_⟩
  have haccounts := (pool_accounting lentOne_reachable).2.2.2.2 2
    [openConnection keepAliveForever 0 0] 0 0 lentOneAfter (by decide) (by decide)
  exact haccounts.2 (by decide) (by simp)

end Overload.Pool
