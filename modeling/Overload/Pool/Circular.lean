import Mathlib.Data.List.Flatten
import Overload.Endless
import Overload.Fifo
import Overload.Pool.KeepAlive

namespace Overload.Pool

open Fifo Transition

variable {w w' : World} {a : Action} {as : List Action} {x y : HttpConnection} {handle : Nat}
  {elasticPool : Bool}

namespace Ledger

variable {l l' : Ledger} {e : Entry}

structure Gone (handle : Nat) (l : Ledger) : Prop where
  opened : handle < l.nextHandle
  nowhere : ∀ con ∈ l.inside + l.out, con.requestHandle ≠ handle

theorem Gone.of_handles_subset (hl : l.Gone handle)
    (hsubset : (l'.inside + l'.out).map HttpConnection.requestHandle ⊆
      (l.inside + l.out).map HttpConnection.requestHandle)
    (hnext : l'.nextHandle = l.nextHandle) : l'.Gone handle where
  opened := hnext ▸ hl.opened
  nowhere := by
    rintro con hcon rfl
    obtain ⟨con', hcon', heq⟩ := Multiset.mem_map.mp (hsubset (Multiset.mem_map_of_mem _ hcon))
    exact hl.nowhere con' hcon' heq

theorem Gone.moves (hl : l.Gone handle) (h : l.Moves e l') : l'.Gone handle := by
  cases h with
  | opens hconn =>
    refine ⟨Nat.lt_add_right _ hl.opened, ?_⟩
    intro con hcon
    simp only [Multiset.mem_add] at hcon
    rcases hcon with (hcon | hcon) | hcon
    · exact hl.nowhere con (Multiset.mem_add.mpr (.inl hcon))
    · have hnew := (mem_openConnections (hconn ▸ Multiset.mem_coe.mp hcon)).1
      have hopened := hl.opened
      omega
    · exact hl.nowhere con (Multiset.mem_add.mpr (.inr hcon))
  | @lends vec rest hinside =>
    refine hl.of_handles_subset ?_ rfl
    rw [hinside, add_right_comm, add_assoc]
    exact fun _ => id
  | @takesBack connection sinceEpoch rest hout =>
    refine hl.of_handles_subset ?_ rfl
    rw [hout, Multiset.add_cons, Multiset.map_cons]
    simp only [Multiset.map_add, Multiset.map_singleton, HttpConnection.used]
    intro handle hhandle
    simp only [Multiset.mem_add, Multiset.mem_cons, Multiset.mem_singleton] at hhandle ⊢
    tauto
  | @drops rest lost hinside =>
    refine hl.of_handles_subset (Multiset.map_subset_map ?_) rfl
    rw [hinside, add_right_comm]
    exact Multiset.subset_of_le (Multiset.le_add_right _ _)

theorem Sound.mem_or_gone (hl : l.Sound) (h : l.Moves .drops l') (hx : x ∈ l.inside) :
    x ∈ l'.inside ∨ l'.Gone x.requestHandle := by
  cases h with
  | @drops rest lost hinside =>
    by_cases hrest : x ∈ rest
    · exact .inl hrest
    · right
      have hlost : x ∈ lost := by
        rw [hinside, Multiset.mem_add] at hx
        exact hx.resolve_left hrest
      refine ⟨hl.opened x (Multiset.mem_add.mpr (.inl hx)), ?_⟩
      intro con hcon heq
      have hnodup := hl.nodup
      rw [hinside, add_right_comm, Multiset.map_add, Multiset.nodup_add] at hnodup
      exact Multiset.disjoint_left.mp hnodup.2.2 (heq ▸ Multiset.mem_map_of_mem _ hcon)
        (Multiset.mem_map_of_mem _ hlost)

theorem Sound.inside_nodup (hl : l.Sound) : l.inside.Nodup :=
  (Multiset.nodup_of_le (Multiset.le_add_right _ _) (Multiset.Nodup.of_map _ hl.nodup))

theorem Sound.inj (hl : l.Sound) (hx : x ∈ l.inside) (hy : y ∈ l.inside)
    (h : x.requestHandle = y.requestHandle) : x = y :=
  Multiset.inj_on_of_nodup_map hl.nodup x (Multiset.mem_add.mpr (.inl hx)) y
    (Multiset.mem_add.mpr (.inl hy)) h

end Ledger

def World.line (w : World) : List HttpConnection := w.pool.connections ++ w.call.holding

def World.aside (w : World) : List HttpConnection :=
  w.pool.recyclableConnections ++ w.tasks.flatMap Task.holding ++ w.returning

theorem inside_eq : w.ledger.inside = (w.line ++ w.pool.newConnections ++ w.aside : List _) := by
  simp only [World.ledger, World.line, World.aside, ← Multiset.coe_add]
  abel

theorem nodup_inside (hs : w.ledger.Sound) :
    (w.line ++ w.pool.newConnections ++ w.aside).Nodup := by
  rw [← Multiset.coe_nodup, ← inside_eq]
  exact hs.inside_nodup

theorem stays_or_gone (hs : w.ledger.Sound) (h : World.Drops w w')
    (haside : w'.aside ⊆ w.aside) (hx : x ∈ w.line ++ w.pool.newConnections) :
    x ∈ w'.line ∨ x ∈ w'.pool.newConnections ∨ w'.ledger.Gone x.requestHandle := by
  have hinside : x ∈ w.ledger.inside := by
    rw [inside_eq, Multiset.mem_coe]
    exact List.mem_append_left _ hx
  rcases hs.mem_or_gone h hinside with hstays | hgone
  · rw [inside_eq, Multiset.mem_coe] at hstays
    have hnot : x ∉ w'.aside := fun hmem =>
      (List.nodup_append.mp (nodup_inside hs)).2.2 x hx x (haside hmem) rfl
    simp only [List.mem_append, hnot, or_false] at hstays
    exact hstays.imp_right .inl
  · exact .inr (.inr hgone)

theorem addNewConnectionMut_aside (w : World) (count : Nat) :
    (w.addNewConnectionMut count).aside = w.aside := by
  unfold World.addNewConnectionMut
  split
  · rfl
  · simp [World.aside, Task.holding]

theorem adjust_aside (w : World) (connectionRequest : Nat) :
    (w.adjust connectionRequest).aside = w.aside ∧
      (w.adjust connectionRequest).pool.newConnections = w.pool.newConnections ∧
      ∃ m, (w.adjust connectionRequest).pool.connections = w.pool.connections.take m := by
  have hall : w.pool.connections = w.pool.connections.take w.pool.connections.length := by simp
  simp only [World.adjust, World.requestMore, World.reEnforce]
  split
  · split
    · simp only [World.addNewConnectionMut_pool]
      exact ⟨addNewConnectionMut_aside _ _, trivial, _, hall⟩
    · exact ⟨rfl, rfl, _, hall⟩
  · split
    · exact ⟨rfl, rfl, _, rfl⟩
    · exact ⟨rfl, rfl, _, hall⟩

theorem setConnectionCount_aside (w : World) (connectionCount : Nat) :
    (w.setConnectionCount connectionCount).aside = w.aside ∧
      (w.setConnectionCount connectionCount).pool.newConnections = w.pool.newConnections ∧
      (w.setConnectionCount connectionCount).call.holding = [] ∧
      ∃ k, (w.setConnectionCount connectionCount).pool.connections =
        w.pool.connections.drop k := by
  have hdrop : ∃ k, (w.pool.shrinkTo connectionCount).connections = w.pool.connections.drop k := by
    unfold QueuePool.shrinkTo
    simp only
    split
    · exact ⟨_, rfl⟩
    · exact ⟨0, by simp⟩
  simp only [World.setConnectionCount]
  split
  · exact ⟨rfl, rfl, rfl, hdrop⟩
  · exact ⟨by simp [World.aside, World.spawnResizer, Task.holding, QueuePool.shrinkTo], rfl, rfl,
      hdrop⟩

theorem prepareHandOut_moves {connectionRequest returnedToPool : Nat}
    (h : (w.prepareHandOut connectionRequest returnedToPool).call ≠ .panicked) :
    (w.prepareHandOut connectionRequest returnedToPool).aside = w.aside ∧
      (w.prepareHandOut connectionRequest returnedToPool).pool.newConnections = [] ∧
      Shifts connectionRequest w.pool.newConnections w.pool.connections
        (w.prepareHandOut connectionRequest returnedToPool).pool.connections ∧
      (w.prepareHandOut connectionRequest returnedToPool).call.holding ⊆
        (w.pool.connections ++ w.pool.newConnections).take connectionRequest := by
  unfold World.prepareHandOut at h ⊢
  split at h
  · exact absurd rfl h
  · rename_i hbusy
    rw [if_neg hbusy]
    obtain ⟨haside, hnew, m, hconnections⟩ :=
      adjust_aside (w.claimNew.takeOffBusy returnedToPool) connectionRequest
    generalize (w.claimNew.takeOffBusy returnedToPool).adjust connectionRequest = u at *
    simp only [World.popConnections, popFront_eq, hconnections]
    refine ⟨haside, hnew, ⟨m, rfl⟩, ?_⟩
    simp only [Call.holding_checking, List.append_nil, List.take_take]
    rw [Nat.min_comm, ← List.take_take]
    exact fun con hcon => List.take_subset _ _ (List.mem_of_mem_filter hcon)

theorem nodup_of_inside_eq (hs : w.ledger.Sound) {joined : List HttpConnection}
    (rest : Multiset HttpConnection)
    (h : w.ledger.inside = w.pool.connections + joined + w.call.holding + rest) :
    (w.pool.connections ++ joined ++ w.call.holding).Nodup := by
  have hnodup := hs.inside_nodup
  rw [h, Multiset.nodup_add, Multiset.coe_add, Multiset.coe_add, Multiset.coe_nodup] at hnodup
  exact hnodup.1

/-- What a step does to the queue: some join at the back, some leave at the back and `k`
leave at the front, where a call may take them. -/
structure Advances (k : Nat) (joined : List HttpConnection) (w w' : World) : Prop where
  shifts : Shifts k joined w.pool.connections w'.pool.connections
  nodup : (w.pool.connections ++ joined ++ w.call.holding).Nodup
  popped : ∀ con ∈ w'.call.holding,
    con ∈ w.call.holding ∨ con ∈ (w.pool.connections ++ joined).take k

theorem Advances.unmoved (hs : w.ledger.Sound)
    (hconnections : w'.pool.connections = w.pool.connections)
    (hholding : w'.call.holding ⊆ w.call.holding) : Advances 0 [] w w' where
  shifts := hconnections ▸ .refl _
  nodup := by
    refine nodup_of_inside_eq hs (w.pool.newConnections + w.aside) ?_
    simp only [World.ledger, World.aside, ← Multiset.coe_add, Multiset.coe_nil]
    abel
  popped := fun _ hcon => .inl (hholding hcon)

theorem advances_step (hw : Reachable step (Initial elasticPool) w) (h : step w a = some w') :
    ∃ k joined, Advances k joined w w' ∧
      ∀ connectionRequest returnedToPool, a = .prepareHandOut →
        w.call = .claiming connectionRequest returnedToPool → k = connectionRequest := by
  have hs := ledger_sound hw
  have hpanicked := not_panicked (hw.run (run_singleton.trans h))
  cases Steps.of_step h with
  | @setConnectionCount connectionCount hcall =>
    obtain ⟨_, _, hholding, k, hconnections⟩ := setConnectionCount_aside w connectionCount
    refine ⟨k, [], ⟨hconnections ▸ .drop k _, (Advances.unmoved hs rfl fun _ => id).nodup, ?_⟩, ?_⟩
    · simp [hholding]
    · simp
  | getConnections hcall =>
    refine ⟨0, w.pool.recyclableConnections, ⟨.join _ _, ?_, ?_⟩, by simp⟩
    · refine nodup_of_inside_eq hs
        (w.pool.newConnections + w.tasks.flatMap Task.holding + w.returning) ?_
      simp only [World.ledger]
      abel
    · simp [World.claimRecyclable, Call.holding]
  | @prepareHandOut connectionRequest returnedToPool hcall =>
    obtain ⟨_, _, hshifts, hholding⟩ := prepareHandOut_moves hpanicked
    refine ⟨connectionRequest, w.pool.newConnections, ⟨hshifts, ?_, ?_⟩, ?_⟩
    · refine nodup_of_inside_eq hs w.aside ?_
      simp only [World.ledger, World.aside, ← Multiset.coe_add]
      abel
    · exact fun con hcon => .inr (hholding hcon)
    · rintro _ _ _ hcall'
      cases hcall.symm.trans hcall'
      rfl
  | resize hcall =>
    exact ⟨0, [], .unmoved hs rfl (by simp [World.resize, World.spawnResizer]), by simp⟩
  | ready hcall hmem =>
    refine ⟨0, [], .unmoved hs rfl ?_, by simp⟩
    rw [hcall]
    exact Call.holding_ready_subset hmem _
  | broken hcall hmem =>
    refine ⟨0, [], .unmoved hs rfl ?_, by simp⟩
    rw [hcall]
    exact Call.holding_broken_subset _ _ _
  | handOut hcall =>
    refine ⟨0, [], .unmoved hs ?_ ?_, by simp⟩
    · simp [World.handOut, World.refill]
    · simp [World.handOut]
  | _ => exact ⟨0, [], .unmoved hs rfl fun _ => id, by simp⟩

theorem not_mem_new (hs : w.ledger.Sound) (hx : x ∈ w.line) : x ∉ w.pool.newConnections :=
  fun hnew => (List.nodup_append.mp (List.nodup_append.mp (nodup_inside hs)).1).2.2 x hx x hnew rfl

theorem lent_pos_iff : 0 < w.lent handle a ↔
    ∃ vec, w.entry a = .lends vec ∧ ∃ con ∈ vec, con.requestHandle = handle := by
  unfold World.lent
  cases w.entry a <;> simp [Entry.lent, List.countP_pos_iff]

theorem line_step (hw : Reachable step (Initial elasticPool) w) (hx : x ∈ w.line)
    (h : step w a = some w') :
    x ∈ w'.line ∨ 0 < w.lent x.requestHandle a ∨ w'.ledger.Gone x.requestHandle := by
  have hs := ledger_sound hw
  have hpanicked := not_panicked (hw.run (run_singleton.trans h))
  have hnew := not_mem_new hs hx
  have hmem : x ∈ w.line ++ w.pool.newConnections := List.mem_append_left _ hx
  have hgone : World.Drops w w' → w'.aside ⊆ w.aside →
      w'.pool.newConnections ⊆ w.pool.newConnections →
      x ∈ w'.line ∨ 0 < w.lent x.requestHandle a ∨ w'.ledger.Gone x.requestHandle := by
    intro hdrops haside hsubset
    rcases stays_or_gone hs hdrops haside hmem with hline | hnew' | hgone
    · exact .inl hline
    · exact absurd (hsubset hnew') hnew
    · exact .inr (.inr hgone)
  cases Steps.of_step h with
  | @setConnectionCount connectionCount hcall =>
    obtain ⟨haside, hnew', _⟩ := setConnectionCount_aside w connectionCount
    exact hgone (World.drops_setConnectionCount _ hcall) (haside ▸ List.Subset.refl _)
      (hnew' ▸ List.Subset.refl _)
  | getConnections hcall =>
    left
    simp only [World.line, hcall, Call.holding_idle, List.append_nil] at hx
    simp [World.line, World.claimRecyclable, hx]
  | prepareHandOut hcall =>
    obtain ⟨haside, hnew', _⟩ := prepareHandOut_moves hpanicked
    exact hgone (World.drops_prepareHandOut hcall) (haside ▸ List.Subset.refl _)
      (hnew' ▸ List.nil_subset _)
  | resize hcall =>
    left
    simp only [World.line, hcall, Call.holding, List.append_nil] at hx
    simp [World.line, World.resize, World.spawnResizer, hx]
  | ready hcall hmem => exact hgone (ledger_step h) (fun _ => id) (fun _ => id)
  | broken hcall hmem => exact hgone (ledger_step h) (fun _ => id) (fun _ => id)
  | @handOut connectionRequest dropped broken vec hcall =>
    simp only [World.line, hcall, Call.holding_checking, List.nil_append, List.mem_append] at hx
    rcases hx with hx | hx
    · left
      simp [World.line, World.handOut, World.refill, hx]
    · right
      left
      exact lent_pos_iff.mpr ⟨vec, by simp [World.entry, hcall], x, hx, rfl⟩
  | _ => exact .inl hx

theorem new_step (hw : Reachable step (Initial elasticPool) w) (hx : x ∈ w.pool.newConnections)
    (h : step w a = some w') :
    x ∈ w'.line ∨ (x ∈ w'.pool.newConnections ∧ a ≠ .prepareHandOut) ∨
      w'.ledger.Gone x.requestHandle := by
  have hs := ledger_sound hw
  have hpanicked := not_panicked (hw.run (run_singleton.trans h))
  have hmem : x ∈ w.line ++ w.pool.newConnections := List.mem_append_right _ hx
  cases Steps.of_step h with
  | @setConnectionCount connectionCount hcall =>
    rw [(setConnectionCount_aside w connectionCount).2.1]
    exact .inr (.inl ⟨hx, by simp⟩)
  | prepareHandOut hcall =>
    obtain ⟨haside, hnew', _⟩ := prepareHandOut_moves hpanicked
    have hstays := stays_or_gone hs (World.drops_prepareHandOut hcall)
      (haside ▸ List.Subset.refl _) hmem
    simpa [hnew'] using hstays
  | @removeNew i diff hi hneg =>
    have haside : (w.removeNew i diff.natAbs).aside ⊆ w.aside := by
      refine ((List.Sublist.append ?_ (.refl _)).subset)
      exact List.Sublist.append (.refl _) ((List.eraseIdx_sublist _ _).flatMap _)
    have hstays := stays_or_gone hs (World.drops_removeNew _ hi rfl) haside hmem
    simpa using hstays
  | appendNew hi => exact .inr (.inl ⟨List.mem_append_left _ hx, by simp⟩)
  | handOut hcall => exact .inr (.inl ⟨by simpa [World.handOut, World.refill] using hx, by simp⟩)
  | _ => exact .inr (.inl ⟨hx, by simp⟩)

theorem recyclable_step (hx : x ∈ w.pool.recyclableConnections) (h : step w a = some w') :
    x ∈ w'.line ∨
      (x ∈ w'.pool.recyclableConnections ∧ ∀ connectionRequest,
        a ≠ .getConnections connectionRequest) := by
  cases Steps.of_step h with
  | getConnections hcall =>
    left
    simp [World.line, World.claimRecyclable, hx]
  | setConnectionCount hcall =>
    right
    simp only [World.setConnectionCount]
    split <;> simpa [World.spawnResizer, QueuePool.shrinkTo] using hx
  | @prepareHandOut connectionRequest returnedToPool hcall =>
    obtain ⟨_, _, _, hadjust, _⟩ :=
      (w.claimNew.takeOffBusy returnedToPool).adjust_frame connectionRequest
    right
    unfold World.prepareHandOut
    split
    · simpa [World.claimNew] using hx
    · simp only [World.popConnections, popFront_eq]
      rw [hadjust]
      exact ⟨hx, by simp⟩
  | handOut hcall => exact .inr ⟨by simpa [World.handOut, World.refill] using hx, by simp⟩
  | pushReturned hmem => exact .inr ⟨List.mem_append_left _ hx, by simp⟩
  | _ => exact .inr ⟨hx, by simp⟩

def Waits (x : HttpConnection) (handle : Nat) (w : World) : Prop :=
  (x ∈ w.pool.connections ∧
    (∀ con ∈ w.pool.connections.take (w.pool.connections.idxOf x), con.requestHandle ≠ handle) ∧
    ∀ con ∈ w.call.holding, con.requestHandle ≠ handle) ∨ x ∈ w.call.holding

theorem Waits.mem_line (h : Waits x handle w) : x ∈ w.line :=
  List.mem_append.mpr (h.imp_left And.left)

theorem Advances.mem_queue {k : Nat} {joined : List HttpConnection} (h : Advances k joined w w')
    (hx : x ∈ w.line) (hx' : x ∈ w'.pool.connections) : x ∈ w.pool.connections := by
  refine (List.mem_append.mp hx).resolve_right fun hholding => ?_
  exact (List.nodup_append.mp h.nodup).2.2 x (h.shifts.subset hx') x hholding rfl

theorem waits_step (hw : Reachable step (Initial elasticPool) w) (hwaits : Waits x handle w)
    (h : step w a = some w') :
    Waits x handle w' ∨ 0 < w.lent x.requestHandle a ∨ w'.ledger.Gone x.requestHandle := by
  refine (line_step hw hwaits.mem_line h).imp_left fun hline => ?_
  obtain ⟨k, joined, hadvances, _⟩ := advances_step hw h
  have hnodup := (List.nodup_append.mp hadvances.nodup).1
  rcases List.mem_append.mp hline with hqueue' | hholding'
  · have hqueue := hadvances.mem_queue hwaits.mem_line hqueue'
    rcases hwaits with ⟨_, hfront, hheld⟩ | hholding
    · refine .inl ⟨hqueue', ?_, ?_⟩
      · exact fun con hcon =>
          hfront con (hadvances.shifts.take_subset hnodup hqueue hqueue' hcon)
      · intro con hcon
        rcases hadvances.popped con hcon with hold | hpopped
        · exact hheld con hold
        · exact hfront con (hadvances.shifts.front_subset hnodup hqueue hqueue' hpopped)
    · exact absurd rfl ((List.nodup_append.mp hadvances.nodup).2.2 x
        (List.mem_append_left _ hqueue) x hholding)
  · exact .inr hholding'

theorem Waits.lent (hwaits : Waits x handle w) (h : step w a = some w')
    (hlent : 0 < w.lent handle a) : 0 < w.lent x.requestHandle a := by
  obtain ⟨vec, hentry, con, hcon, rfl⟩ := lent_pos_iff.mp hlent
  cases Steps.of_step h with
  | @handOut connectionRequest dropped broken vec' hcall =>
    obtain rfl : vec' = vec := by simpa [World.entry, hcall] using hentry
    have hholding : w.call.holding = vec' := by simp [hcall]
    rcases hwaits with ⟨_, _, hheld⟩ | hx
    · exact absurd rfl (hheld con (hholding ▸ hcon))
    · exact lent_pos_iff.mpr ⟨vec', hentry, x, hholding ▸ hx, rfl⟩
  | _ => cases hentry

theorem waits_of_ahead (hs : w.ledger.Sound) (h : Ahead w.pool.connections x y) :
    Waits x y.requestHandle w := by
  have hline : w.line.Nodup := (List.nodup_append.mp (List.nodup_append.mp (nodup_inside hs)).1).1
  obtain ⟨hqueue, _, hdisjoint⟩ := List.nodup_append.mp hline
  obtain ⟨i, j, _, hi, hj⟩ := id h
  have hy : y ∈ w.pool.connections := List.mem_of_getElem? hj
  -- a connection in line with the handle of `y` is `y`
  have heq : ∀ con ∈ w.line, con.requestHandle = y.requestHandle → con = y := by
    have hinside : ∀ con ∈ w.line, con ∈ w.ledger.inside := by
      intro con hcon
      rw [inside_eq, Multiset.mem_coe]
      exact List.mem_append_left _ (List.mem_append_left _ hcon)
    exact fun con hcon => hs.inj (hinside con hcon) (hinside y (List.mem_append_left _ hy))
  refine .inl ⟨List.mem_of_getElem? hi, ?_, ?_⟩
  · intro con hcon hhandle
    obtain rfl := heq con (List.mem_append_left _ (List.mem_of_mem_take hcon)) hhandle
    exact h.not_mem_take hqueue hcon
  · intro con hcon hhandle
    obtain rfl := heq con (List.mem_append_right _ hcon) hhandle
    exact hdisjoint con hy con hcon rfl

theorem always_waits (hw : Reachable step (Initial elasticPool) w)
    (hwaits : Waits x handle w) (as : List Action) :
    Always step (fun past u => run step w past = some u ∧
      (0 < tally step (World.lent x.requestHandle) w past ∨ u.ledger.Gone x.requestHandle ∨
        Waits x handle u)) w as := by
  refine Meets.always (C := fun _ _ _ => True) ⟨rfl, .inr (.inr hwaits)⟩ ?_
    (fun _ _ _ _ _ _ => trivial)
  rintro past u b v ⟨hu, hstate⟩ _ hstep
  refine ⟨run_concat_eq_some.mpr ⟨u, hu, hstep⟩, ?_⟩
  rw [tally_concat _ hu]
  rcases hstate with hlent | hgone | hwaits
  · exact .inl (Nat.add_pos_left hlent _)
  · exact .inr (.inl (hgone.moves (ledger_step hstep)))
  · rcases waits_step (hw.run hu) hwaits hstep with hwaits' | hlent | hgone
    · exact .inr (.inr hwaits')
    · exact .inl (Nat.add_pos_right _ hlent)
    · exact .inr (.inl hgone)

theorem first_out (hw : Reachable step (Initial elasticPool) w)
    (h : Ahead w.pool.connections x y) (hrun : run step w as = some w') :
    Meets step (fun past u b => 0 < u.lent y.requestHandle b →
      0 < tally step (World.lent x.requestHandle) w (past ++ [b]) ∨
        u.ledger.Gone x.requestHandle) w as := by
  have halways := always_waits hw (waits_of_ahead (ledger_sound hw) h) as
  refine halways.meets ?_ hrun
  rintro past u b v hstep ⟨hu, hstate⟩ _ _ hlent
  rw [tally_concat _ hu]
  rcases hstate with hlent' | hgone | hwaits
  · exact .inl (Nat.add_pos_left hlent' _)
  · exact .inr hgone
  · exact .inl (Nat.add_pos_right _ (hwaits.lent hstep hlent))

/-- Again and again the owner asks for a connection. -/
def SteadyUse (r : Endless step) : Prop :=
  r.Recurs fun _ b => ∃ connectionRequest, 1 ≤ connectionRequest ∧
    b = .getConnections connectionRequest

def HandsOut (w : World) (a : Action) : Prop :=
  a = .prepareHandOut ∧ ∃ connectionRequest returnedToPool,
    w.call = .claiming connectionRequest returnedToPool ∧ 1 ≤ connectionRequest

theorem getConnections_call {connectionRequest : Nat}
    (h : step w (.getConnections connectionRequest) = some w') :
    w.call = .idle ∧
      ∃ returnedToPool, w'.call = .claiming connectionRequest returnedToPool := by
  cases Steps.of_step h with
  | getConnections hcall => exact ⟨hcall, _, rfl⟩

theorem claiming_step {connectionRequest returnedToPool : Nat}
    (hcall : w.call = .claiming connectionRequest returnedToPool) (h : step w a = some w') :
    w'.call = .claiming connectionRequest returnedToPool ∨ a = .prepareHandOut := by
  cases Steps.of_step h with
  | prepareHandOut _ => exact .inr rfl
  | setConnectionCount hcall' => cases hcall.symm.trans hcall'
  | resize hcall' => cases hcall.symm.trans hcall'
  | getConnections hcall' => cases hcall.symm.trans hcall'
  | ready hcall' hmem => cases hcall.symm.trans hcall'
  | broken hcall' hmem => cases hcall.symm.trans hcall'
  | handOut hcall' => cases hcall.symm.trans hcall'
  | _ => exact .inl hcall

theorem SteadyUse.handsOut {r : Endless step} (h : SteadyUse r) : r.Recurs HandsOut := by
  intro i
  obtain ⟨j, hij, connectionRequest, hpos, hj⟩ := h i
  obtain ⟨k, hjk, connectionRequest', _, hk⟩ := h (j + 1)
  obtain ⟨_, returnedToPool, hclaiming⟩ := getConnections_call (hj ▸ r.next j)
  obtain ⟨hidle, _⟩ := getConnections_call (hk ▸ r.next k)
  obtain ⟨l, hjl, _, hl, hl'⟩ := r.exists_leave
    (I := fun w => w.call = .claiming connectionRequest returnedToPool) hjk hclaiming
    (by simp [hidle])
  refine ⟨l, by omega, ?_, connectionRequest, returnedToPool, hl, hpos⟩
  exact (claiming_step hl (r.next l)).resolve_left hl'

def Served (r : Endless step) (handle i : Nat) : Prop :=
  0 < (r.state i).lent handle (r.action i) ∨ (r.state (i + 1)).ledger.Gone handle

section Starvation

variable {r : Endless step} {i : Nat}

theorem line_served (hr : Reachable step (Initial elasticPool) (r.state 0)) (h : SteadyUse r)
    (hx : x ∈ (r.state i).line) : ∃ j, i ≤ j ∧ Served r x.requestHandle j := by
  -- the number of connections up to `x` in the queue
  let rank (w : World) : Nat :=
    if x ∈ w.pool.connections then w.pool.connections.idxOf x + 1 else 0
  refine r.eventually_of_rank (I := fun w => x ∈ w.line) rank h.handsOut ?_ hx
  intro i hline
  have hreach := r.reachable hr i
  rcases line_step hreach hline (r.next i) with hline' | hserved
  · right
    obtain ⟨k, joined, hadvances, hk⟩ := advances_step hreach (r.next i)
    have hnodup := (List.nodup_append.mp hadvances.nodup).1
    by_cases hqueue' : x ∈ (r.state (i + 1)).pool.connections
    · have hqueue := hadvances.mem_queue hline hqueue'
      have hadd := hadvances.shifts.idxOf_add hnodup hqueue hqueue'
      simp only [rank, if_pos hqueue, if_pos hqueue']
      refine ⟨hline', by omega, ?_⟩
      rintro ⟨haction, connectionRequest, returnedToPool, hcall, hpos⟩
      have hk' := hk connectionRequest returnedToPool haction hcall
      omega
    · simp only [rank, if_neg hqueue']
      refine ⟨hline', Nat.zero_le _, ?_⟩
      rintro ⟨_, connectionRequest, returnedToPool, hcall, _⟩
      have hqueue : x ∈ (r.state i).pool.connections := by
        simpa [World.line, hcall, Call.holding] using hline
      simp [hqueue]
  · exact .inl hserved

theorem served_of_line (hr : Reachable step (Initial elasticPool) (r.state 0)) (h : SteadyUse r)
    (hx : ∃ j, i ≤ j ∧ (x ∈ (r.state (j + 1)).line ∨ Served r x.requestHandle j)) :
    ∃ j, i ≤ j ∧ Served r x.requestHandle j := by
  obtain ⟨j, hij, hline | hserved⟩ := hx
  · obtain ⟨k, hjk, hserved⟩ := line_served hr h hline
    exact ⟨k, by omega, hserved⟩
  · exact ⟨j, hij, hserved⟩

theorem new_served (hr : Reachable step (Initial elasticPool) (r.state 0)) (h : SteadyUse r)
    (hx : x ∈ (r.state i).pool.newConnections) :
    ∃ j, i ≤ j ∧ Served r x.requestHandle j := by
  refine served_of_line hr h (r.eventually_of_rank (I := fun w => x ∈ w.pool.newConnections)
    (fun _ => 0) h.handsOut ?_ hx)
  intro i hnew
  rcases new_step (r.reachable hr i) hnew (r.next i) with hline | ⟨hnew', haction⟩ | hgone
  · exact .inl (.inl hline)
  · exact .inr ⟨hnew', Nat.le_refl _, fun hhandsOut => absurd hhandsOut.1 haction⟩
  · exact .inl (.inr (.inr hgone))

theorem recyclable_served (hr : Reachable step (Initial elasticPool) (r.state 0))
    (h : SteadyUse r) (hx : x ∈ (r.state i).pool.recyclableConnections) :
    ∃ j, i ≤ j ∧ Served r x.requestHandle j := by
  refine served_of_line hr h (r.eventually_of_rank
    (I := fun w => x ∈ w.pool.recyclableConnections) (fun _ => 0) h ?_ hx)
  intro i hrecyclable
  rcases recyclable_step hrecyclable (r.next i) with hline | ⟨hrecyclable', haction⟩
  · exact .inl (.inl hline)
  · refine .inr ⟨hrecyclable', Nat.le_refl _, ?_⟩
    rintro ⟨connectionRequest, _, hgetConnections⟩
    exact absurd hgetConnections (haction connectionRequest)

end Starvation

def World.available (w : World) : List HttpConnection :=
  w.line ++ w.pool.newConnections ++ w.pool.recyclableConnections

/-- Of two connections in the queue the one ahead is lent first, or at the same time, unless
it is dropped before; what is returned joins the queue behind all that are in it, as does
whatever else joins; and in steady use every connection of the pool is lent or dropped in
the end. -/
theorem circular_use {keepAlive : ConnectionKeepAlive} {past : List Action}
    (hrun : run step (.new keepAlive elasticPool) past = some w) :
    (∀ x y, Ahead w.pool.connections x y → ∀ as w', run step w as = some w' →
      Meets step (fun later u a => 0 < u.lent y.requestHandle a →
        0 < tally step (World.lent x.requestHandle) w (later ++ [a]) ∨
          u.ledger.Gone x.requestHandle) w as) ∧
    (∀ a w', step w a = some w' →
      (∀ connectionRequest, a = .getConnections connectionRequest →
        w'.pool.connections = w.pool.connections ++ w.pool.recyclableConnections) ∧
      ∀ x con, x ∈ w.pool.connections → x ∈ w'.pool.connections →
        con ∉ w.pool.connections → con ∈ w'.pool.connections →
        Ahead w'.pool.connections x con) ∧
    (∀ r : Endless step, r.state 0 = w → SteadyUse r → ∀ x ∈ w.available,
      ∃ i, 0 < (r.state i).lent x.requestHandle (r.action i) ∨
        (r.state i).ledger.Gone x.requestHandle) := by
  have hw : Reachable step (Initial elasticPool) w := (Reachable.of_init ⟨keepAlive, rfl⟩).run hrun
  refine ⟨fun x y h as w' hrun' => first_out hw h hrun', ?_, ?_⟩
  · intro a w' hstep
    refine ⟨?_, ?_⟩
    · rintro connectionRequest rfl
      cases Steps.of_step hstep with
      | getConnections hcall => rfl
    · intro x con hx hx' hcon hcon'
      obtain ⟨k, joined, hadvances, _⟩ := advances_step hw hstep
      exact hadvances.shifts.ahead_of_joined (List.nodup_append.mp hadvances.nodup).1 hx hx' hcon
        hcon'
  · rintro r rfl hsteady x hx
    have hserved : ∃ j, 0 ≤ j ∧ Served r x.requestHandle j := by
      simp only [World.available, List.mem_append] at hx
      rcases hx with (hline | hnew) | hrecyclable
      · exact line_served hw hsteady hline
      · exact new_served hw hsteady hnew
      · exact recyclable_served hw hsteady hrecyclable
    obtain ⟨j, _, hlent | hgone⟩ := hserved
    · exact ⟨j, .inl hlent⟩
    · exact ⟨j + 1, .inr hgone⟩

def queueTwo : List Action :=
  openAll [some 0, some 0] ++ [.getConnections 0, .prepareHandOut, .handOut]

def lendSecond : List Action :=
  [.getConnections 1, .prepareHandOut, .checkReady (openConnection keepAliveForever 1 0) true,
    .handOut]

def lendBoth : List Action := lendFirst keepAliveForever ++ lendSecond

def exhausted : World := afterwards keepAliveForever (queueTwo ++ lendBoth)

def asking (i : Nat) : World × Action :=
  match i % 3 with
  | 0 => (exhausted, .getConnections 1)
  | 1 => (exhausted.claimRecyclable 1, .prepareHandOut)
  | _ => ((exhausted.claimRecyclable 1).prepareHandOut 1 0, .handOut)

theorem asking_next (i : Nat) : step (asking i).1 (asking i).2 = some (asking (i + 1)).1 := by
  have hcases : i % 3 = 0 ∨ i % 3 = 1 ∨ i % 3 = 2 := by omega
  rcases hcases with h | h | h
  · have h' : (i + 1) % 3 = 1 := by omega
    simp only [asking, h, h']
    decide
  · have h' : (i + 1) % 3 = 2 := by omega
    simp only [asking, h, h']
    decide
  · have h' : (i + 1) % 3 = 0 := by omega
    simp only [asking, h, h']
    decide

theorem circular_use_queueTwo :
    ∃ w, run step (.new keepAliveForever false) queueTwo = some w ∧
      Ahead w.pool.connections (openConnection keepAliveForever 0 0)
        (openConnection keepAliveForever 1 0) ∧
      Meets step (fun later u a => 0 < u.lent 1 a →
        0 < tally step (World.lent 0) w (later ++ [a]) ∨ u.ledger.Gone 0) w lendBoth ∧
      ∃ r : Endless step, r.state 0 = w ∧ SteadyUse r ∧
        ∃ i, 0 < (r.state i).lent 1 (r.action i) ∨ (r.state i).ledger.Gone 1 := by
  have hrun : run step (.new keepAliveForever false) queueTwo =
      some (afterwards keepAliveForever queueTwo) := by decide
  have hboth : run step (afterwards keepAliveForever queueTwo) lendBoth = some exhausted := by
    decide
  have hahead : Ahead (afterwards keepAliveForever queueTwo).pool.connections
      (openConnection keepAliveForever 0 0) (openConnection keepAliveForever 1 0) :=
    ⟨0, 1, by decide, by decide, by decide⟩
  obtain ⟨hfirst, _, hserved⟩ := circular_use hrun
  obtain ⟨r, hr, hrecurs⟩ := Endless.exists_of_run ⟨_, _, asking_next⟩ hboth
  have hsteady : SteadyUse r := by
    refine hrecurs _ fun i => ⟨3 * i, by omega, 1, Nat.le_refl 1, ?_⟩
    simp [asking]
  exact ⟨_, hrun, hahead, hfirst _ _ hahead lendBoth exhausted hboth, r, hr, hsteady,
    hserved r hr hsteady (openConnection keepAliveForever 1 0) (by decide)⟩

end Overload.Pool
