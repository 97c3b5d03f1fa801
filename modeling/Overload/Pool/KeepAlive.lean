import Overload.Pool.Balance

namespace Overload.Pool

open Transition

variable {w w' : World} {a : Action}

def ConnectionKeepAlive.reuses (keepAlive : ConnectionKeepAlive) : Nat :=
  min keepAlive.maxRequestPerConnection.toNat (2 ^ 31 - 1)

theorem ConnectionKeepAlive.reuses_pos (keepAlive : ConnectionKeepAlive) :
    0 < keepAlive.reuses := by
  have hpos : 0 < keepAlive.maxRequestPerConnection.toNat :=
    Nat.pos_of_ne_zero fun h => keepAlive.nonzero (UInt32.toNat_inj.mp h)
  simp only [reuses]
  omega

def Entry.lent (handle : Nat) : Entry → Nat
  | .lends vec => vec.countP (·.requestHandle == handle)
  | _ => 0

def World.lent (handle : Nat) (w : World) (a : Action) : Nat := (w.entry a).lent handle

def timesLent (keepAlive : ConnectionKeepAlive) (elasticPool : Bool) (handle : Nat)
    (as : List Action) : Nat :=
  tally step (World.lent handle) (.new keepAlive elasticPool) as

def World.Unexpired (w : World) : Prop := ∀ con ∈ w.call.holding, con.shouldDrop = false

theorem unexpired_step (hw : w.Unexpired) (h : step w a = some w') : w'.Unexpired := by
  cases Steps.of_step h with
  | setConnectionCount hcall =>
    simp only [World.setConnectionCount]
    split <;> simp [World.Unexpired, World.spawnResizer, Call.holding]
  | prepareHandOut hcall =>
    unfold World.prepareHandOut
    split
    · simp [World.Unexpired, Call.holding]
    · simp only [World.Unexpired, World.popConnections, popFront_eq, Call.holding_checking,
        List.append_nil]
      intro con hcon
      simpa using (List.mem_filter.mp hcon).2
  | ready hcall hmem =>
    rw [World.Unexpired, hcall] at hw
    exact fun con hcon => hw con (Call.holding_ready_subset hmem _ hcon)
  | broken hcall hmem =>
    rw [World.Unexpired, hcall] at hw
    exact fun con hcon => hw con (Call.holding_broken_subset _ _ _ hcon)
  | handOut hcall => simp [World.Unexpired, World.handOut, Call.holding]
  | resize hcall => simp [World.Unexpired, World.resize, World.spawnResizer, Call.holding]
  | getConnections hcall => simp [World.Unexpired, World.claimRecyclable, Call.holding]
  | _ => exact hw

theorem unexpired {elasticPool : Bool} (h : Reachable step (Initial elasticPool) w) :
    w.Unexpired := by
  refine h.invariant ?_ fun w a w' hw hstep => unexpired_step hw hstep
  rintro w ⟨keepAlive, rfl⟩
  simp [World.Unexpired, World.new, Call.holding]

theorem World.Unexpired.lends (hw : w.Unexpired) {vec : List HttpConnection}
    (h : w.entry a = .lends vec) : ∀ con ∈ vec, con.shouldDrop = false := by
  intro con hcon
  apply hw con
  cases a with
  | handOut =>
    simp only [entry] at h
    split at h
    · rename_i hcall
      cases h
      rw [hcall]
      exact List.mem_append_right _ hcon
    · cases h
  | _ => cases h

theorem mem_openConnections {keepAlive : ConnectionKeepAlive} {handle : Nat}
    {results : List (Option Nat)} {con : HttpConnection}
    (h : con ∈ openConnections keepAlive handle results) :
    handle ≤ con.requestHandle ∧ con.remainingReuse = keepAlive.reuses := by
  induction results generalizing handle with
  | nil => cases h
  | cons result results ih =>
    cases result with
    | none => exact ih h
    | some now =>
      rcases List.mem_cons.mp h with rfl | h
      · exact ⟨Nat.le_refl handle, rfl⟩
      · exact ⟨Nat.le_of_succ_le (ih h).1, (ih h).2⟩

namespace Ledger

variable {l l' : Ledger} {e : Entry} {times times' : Nat → Nat}

/-- How often each connection has been handed out shows in what is left of its reuses.
A connection without any is dropped before it is handed out again. -/
structure Paid (times : Nat → Nat) (l : Ledger) : Prop where
  inside : ∀ con ∈ l.inside, 0 ≤ con.remainingReuse ∧
    times con.requestHandle + con.remainingReuse = l.keepAlive.reuses ∧
    (con.remainingReuse = 0 → con.shouldDrop = true)
  out : ∀ con ∈ l.out, 1 ≤ con.remainingReuse ∧ con.remainingReuse ≤ l.keepAlive.reuses ∧
    times con.requestHandle + con.remainingReuse = l.keepAlive.reuses + 1
  limit : ∀ handle, times handle ≤ l.keepAlive.reuses
  fresh : ∀ handle, l.nextHandle ≤ handle → times handle = 0

theorem Paid.opens (hl : l.Paid times) {results : List (Option Nat)} {conn : List HttpConnection}
    (hconn : conn = openConnections l.keepAlive l.nextHandle results) :
    Paid times { l with
      inside := l.inside + conn
      nextHandle := l.nextHandle + conn.length
      success := l.success + conn.length } where
  inside := by
    intro con hcon
    rcases Multiset.mem_add.mp hcon with hcon | hcon
    · exact hl.inside con hcon
    · have hnew := mem_openConnections (hconn ▸ Multiset.mem_coe.mp hcon)
      have hpos := l.keepAlive.reuses_pos
      rw [hl.fresh con.requestHandle hnew.1, hnew.2]
      dsimp only
      omega
  out := hl.out
  limit := hl.limit
  fresh := fun handle hhandle => hl.fresh handle (Nat.le_of_add_right_le hhandle)

theorem countP_lent {rest : Multiset HttpConnection} {vec : List HttpConnection}
    (hnodup : ((rest + vec).map HttpConnection.requestHandle).Nodup) :
    (∀ con ∈ vec, vec.countP (·.requestHandle == con.requestHandle) = 1) ∧
      ∀ con ∈ rest, vec.countP (·.requestHandle == con.requestHandle) = 0 := by
  rw [Multiset.map_add, Multiset.nodup_add, Multiset.map_coe, Multiset.coe_nodup] at hnodup
  obtain ⟨_, hvec, hdisjoint⟩ := hnodup
  have hcount (handle : Nat) : vec.countP (·.requestHandle == handle) =
      (vec.map HttpConnection.requestHandle).count handle := by
    rw [List.count, List.countP_map]
    rfl
  constructor
  · intro con hcon
    rw [hcount]
    exact List.count_eq_one_of_mem hvec (List.mem_map_of_mem hcon)
  · intro con hcon
    rw [hcount, List.count_eq_zero]
    exact fun hmem => Multiset.disjoint_left.mp hdisjoint
      (Multiset.mem_map_of_mem _ hcon) (Multiset.mem_coe.mpr hmem)

theorem countP_handle_eq_zero {vec : List HttpConnection} {handle : Nat}
    (h : ∀ con ∈ vec, con.requestHandle ≠ handle) :
    vec.countP (·.requestHandle == handle) = 0 := by
  rw [List.countP_eq_zero]
  exact fun con hcon => by simpa using h con hcon

theorem Paid.lends (hl : l.Paid times) (hsound : l.Sound) {vec : List HttpConnection}
    {rest : Multiset HttpConnection} (hinside : l.inside = rest + vec)
    (hvec : ∀ con ∈ vec, con.shouldDrop = false)
    (htimes : ∀ handle, times' handle =
      times handle + vec.countP (·.requestHandle == handle)) :
    Paid times' { l with inside := rest, out := l.out + vec } := by
  have hnodup := hsound.nodup
  rw [hinside, add_right_comm] at hnodup
  obtain ⟨hlent, hothers⟩ := countP_lent hnodup
  have hmem : ∀ con ∈ vec, con ∈ l.inside := fun con hcon =>
    hinside ▸ Multiset.mem_add.mpr (.inr (Multiset.mem_coe.mpr hcon))
  -- a connection that is lent is not to be dropped, so it has a reuse left
  have hpays : ∀ con ∈ vec, 1 ≤ con.remainingReuse ∧
      con.remainingReuse ≤ l.keepAlive.reuses ∧
      times' con.requestHandle + con.remainingReuse = l.keepAlive.reuses + 1 := by
    intro con hcon
    obtain ⟨hnonneg, hsum, hzero⟩ := hl.inside con (hmem con hcon)
    have hleft : con.remainingReuse ≠ 0 := by
      intro h
      rw [hvec con hcon] at hzero
      exact absurd (hzero h) Bool.false_ne_true
    rw [htimes, hlent con hcon]
    omega
  refine ⟨?_, ?_, ?_, ?_⟩
  · intro con hcon
    rw [htimes, hothers con (Multiset.mem_add.mpr (.inl hcon)), Nat.add_zero]
    exact hl.inside con (hinside ▸ Multiset.mem_add.mpr (.inl hcon))
  · intro con hcon
    rcases Multiset.mem_add.mp hcon with hcon | hcon
    · rw [htimes, hothers con (Multiset.mem_add.mpr (.inr hcon)), Nat.add_zero]
      exact hl.out con hcon
    · exact hpays con (Multiset.mem_coe.mp hcon)
  · intro handle
    by_cases hsome : ∃ con ∈ vec, con.requestHandle = handle
    · obtain ⟨con, hcon, rfl⟩ := hsome
      have hpaid := hpays con hcon
      dsimp only
      omega
    · rw [htimes, countP_handle_eq_zero fun con hcon heq => hsome ⟨con, hcon, heq⟩]
      exact hl.limit handle
  · intro handle hhandle
    have hne : ∀ con ∈ vec, con.requestHandle ≠ handle := fun con hcon =>
      Nat.ne_of_lt (Nat.lt_of_lt_of_le
        (hsound.opened con (Multiset.mem_add.mpr (.inl (hmem con hcon)))) hhandle)
    rw [htimes, countP_handle_eq_zero hne]
    exact hl.fresh handle hhandle

theorem Paid.takesBack (hl : l.Paid times) {connection : HttpConnection} (sinceEpoch : Nat)
    {rest : Multiset HttpConnection} (hout : l.out = connection ::ₘ rest) :
    Paid times { l with inside := l.inside + {connection.used sinceEpoch}, out := rest } where
  inside := by
    intro con hcon
    rcases Multiset.mem_add.mp hcon with hcon | hcon
    · exact hl.inside con hcon
    · obtain rfl := Multiset.mem_singleton.mp hcon
      have hlast := hl.out connection (hout ▸ Multiset.mem_cons_self _ _)
      simp only [HttpConnection.used, Bool.or_eq_true, decide_eq_true_eq]
      omega
  out := fun con hcon => hl.out con (hout ▸ Multiset.mem_cons_of_mem hcon)
  limit := hl.limit
  fresh := hl.fresh

theorem Paid.drops (hl : l.Paid times) {rest lost : Multiset HttpConnection}
    (hinside : l.inside = rest + lost) :
    Paid times { l with inside := rest, gone := l.gone + lost.card } where
  inside := fun con hcon => hl.inside con (hinside ▸ Multiset.mem_add.mpr (.inl hcon))
  out := hl.out
  limit := hl.limit
  fresh := hl.fresh

end Ledger

variable {keepAlive : ConnectionKeepAlive} {elasticPool : Bool} {as : List Action}

theorem paid_step {times : Nat → Nat} (hw : Reachable step (Initial elasticPool) w)
    (hpaid : w.ledger.Paid times) (h : step w a = some w') :
    w'.ledger.Paid fun handle => times handle + w.lent handle a := by
  have hmoves := ledger_step h
  have hvec : ∀ vec, w.entry a = .lends vec → ∀ con ∈ vec, con.shouldDrop = false :=
    fun vec => (unexpired hw).lends
  simp only [World.lent]
  generalize w.entry a = e at hmoves hvec
  generalize w'.ledger = l' at hmoves
  cases hmoves with
  | opens hconn => exact hpaid.opens hconn
  | lends hinside => exact hpaid.lends (ledger_sound hw) hinside (hvec _ rfl) fun _ => rfl
  | @takesBack connection sinceEpoch rest hout => exact hpaid.takesBack sinceEpoch hout
  | drops hinside => exact hpaid.drops hinside

theorem keepAlive_run (hrun : run step (.new keepAlive elasticPool) as = some w) :
    w.ledger.keepAlive = keepAlive := by
  refine run_invariant (I := fun w => w.ledger.keepAlive = keepAlive) ?_ rfl hrun
  intro u a v hu hstep
  have hmoves := ledger_step hstep
  generalize u.entry a = e at hmoves
  generalize v.ledger = l at hmoves ⊢
  cases hmoves <;> exact hu

theorem paid_run (hrun : run step (.new keepAlive elasticPool) as = some w) :
    w.ledger.Paid fun handle => timesLent keepAlive elasticPool handle as := by
  induction as using List.reverseRecOn generalizing w with
  | nil =>
    cases hrun
    refine ⟨?_, ?_, ?_, ?_⟩ <;>
      simp [World.ledger, World.new, QueuePool.new, Call.holding, timesLent]
  | append_singleton as a ih =>
    obtain ⟨u, hu, hstep⟩ := run_concat_eq_some.mp hrun
    have hreach : Reachable step (Initial elasticPool) u :=
      (Reachable.of_init ⟨keepAlive, rfl⟩).run hu
    simp only [timesLent, tally_concat _ hu]
    exact paid_step hreach (ih hu) hstep

namespace Ledger

variable {l l' : Ledger} {e : Entry} {handle : Nat}

structure Retired (handle : Nat) (l : Ledger) : Prop where
  inside : ∀ con ∈ l.inside, con.requestHandle = handle → con.shouldDrop = true
  out : ∀ con ∈ l.out, con.requestHandle ≠ handle
  opened : handle < l.nextHandle

theorem Retired.of_takesBack (hl : l.Sound) {connection : HttpConnection} {sinceEpoch : Nat}
    (hfound : connection.expireAt < sinceEpoch ∨ connection.remainingReuse ≤ 1)
    (h : l.Moves (.takesBack connection sinceEpoch) l') :
    Retired connection.requestHandle l' := by
  cases h with
  | @takesBack _ _ rest hout =>
    have hnodup := hl.nodup
    rw [hout, Multiset.add_cons, Multiset.map_cons, Multiset.nodup_cons] at hnodup
    have hothers : ∀ con ∈ l.inside + rest, con.requestHandle ≠ connection.requestHandle :=
      fun con hcon h => hnodup.1 (h ▸ Multiset.mem_map_of_mem _ hcon)
    refine ⟨?_, ?_, ?_⟩
    · intro con hcon hhandle
      rcases Multiset.mem_add.mp hcon with hcon | hcon
      · exact absurd hhandle (hothers con (Multiset.mem_add.mpr (.inl hcon)))
      · obtain rfl := Multiset.mem_singleton.mp hcon
        simp only [HttpConnection.used, Bool.or_eq_true, decide_eq_true_eq]
        exact .inr hfound
    · exact fun con hcon => hothers con (Multiset.mem_add.mpr (.inr hcon))
    · exact hl.opened connection
        (Multiset.mem_add.mpr (.inr (hout ▸ Multiset.mem_cons_self _ _)))

theorem Retired.moves (hl : l.Retired handle) (h : l.Moves e l')
    (hvec : ∀ vec, e = .lends vec → ∀ con ∈ vec, con.shouldDrop = false) :
    l'.Retired handle ∧ e.lent handle = 0 := by
  cases h with
  | opens hconn =>
    refine ⟨⟨?_, hl.out, Nat.lt_add_right _ hl.opened⟩, rfl⟩
    intro con hcon hhandle
    rcases Multiset.mem_add.mp hcon with hcon | hcon
    · exact hl.inside con hcon hhandle
    · have hnew := (mem_openConnections (hconn ▸ Multiset.mem_coe.mp hcon)).1
      have hopened := hl.opened
      omega
  | @lends vec rest hinside =>
    have hnot : ∀ con ∈ vec, con.requestHandle ≠ handle := by
      intro con hcon hhandle
      have hdrop := hl.inside con (hinside ▸ Multiset.mem_add.mpr (.inr hcon)) hhandle
      exact absurd (hvec vec rfl con hcon) (by simp [hdrop])
    refine ⟨⟨?_, ?_, hl.opened⟩, ?_⟩
    · exact fun con hcon => hl.inside con (hinside ▸ Multiset.mem_add.mpr (.inl hcon))
    · intro con hcon
      rcases Multiset.mem_add.mp hcon with hcon | hcon
      · exact hl.out con hcon
      · exact hnot con hcon
    · rw [Entry.lent, List.countP_eq_zero]
      intro con hcon
      simpa using hnot con hcon
  | @takesBack connection sinceEpoch rest hout =>
    refine ⟨⟨?_, ?_, hl.opened⟩, rfl⟩
    · intro con hcon hhandle
      rcases Multiset.mem_add.mp hcon with hcon | hcon
      · exact hl.inside con hcon hhandle
      · obtain rfl := Multiset.mem_singleton.mp hcon
        exact absurd hhandle (hl.out connection (hout ▸ Multiset.mem_cons_self _ _))
    · exact fun con hcon => hl.out con (hout ▸ Multiset.mem_cons_of_mem hcon)
  | drops hinside =>
    refine ⟨⟨?_, hl.out, hl.opened⟩, rfl⟩
    exact fun con hcon => hl.inside con (hinside ▸ Multiset.mem_add.mpr (.inl hcon))

end Ledger

theorem never_lent_again {handle : Nat} (hw : Reachable step (Initial elasticPool) w)
    (hretired : w.ledger.Retired handle) (hrun : run step w as = some w') :
    tally step (World.lent handle) w as = 0 := by
  induction as generalizing w with
  | nil => rfl
  | cons a as ih =>
    obtain ⟨u, hu, hrest⟩ := run_cons_eq_some.mp hrun
    obtain ⟨hretired', hnone⟩ := hretired.moves (ledger_step hu) fun vec => (unexpired hw).lends
    have hrest' := ih (hw.run (run_singleton.trans hu)) hretired' hrest
    simp only [tally, hu, Option.map_some, Option.getD_some, hrest', World.lent, hnone]

/-- In every run a connection is handed out at most as often as its keep-alive setting
allows, its count of reuses stays in range, and once a return has found it expired or used
up it is not handed out again. -/
theorem keep_alive_limit (hrun : run step (.new keepAlive elasticPool) as = some w) :
    (∀ handle, timesLent keepAlive elasticPool handle as ≤
      min keepAlive.maxRequestPerConnection.toNat (2 ^ 31 - 1)) ∧
    (∀ con ∈ w.ledger.inside + w.ledger.out, 0 ≤ con.remainingReuse ∧
      con.remainingReuse ≤ (min keepAlive.maxRequestPerConnection.toNat (2 ^ 31 - 1) : Nat)) ∧
    ∀ past connection sinceEpoch rest,
      as = past ++ .returnConnection connection sinceEpoch :: rest →
      connection.expireAt < sinceEpoch ∨ connection.remainingReuse ≤ 1 →
      timesLent keepAlive elasticPool connection.requestHandle as =
        timesLent keepAlive elasticPool connection.requestHandle past := by
  have hpaid := paid_run hrun
  have hreuses : w.ledger.keepAlive.reuses =
      min keepAlive.maxRequestPerConnection.toNat (2 ^ 31 - 1) := by
    rw [keepAlive_run hrun]
    rfl
  rw [← hreuses]
  refine ⟨hpaid.limit, ?_, ?_⟩
  · intro con hcon
    rcases Multiset.mem_add.mp hcon with hcon | hcon
    · have hinside := hpaid.inside con hcon
      omega
    · have hout := hpaid.out con hcon
      omega
  · rintro past connection sinceEpoch rest rfl hfound
    obtain ⟨u, hu, hrest⟩ := run_append_eq_some.mp hrun
    obtain ⟨v, hv, hrest⟩ := run_cons_eq_some.mp hrest
    have hreach : Reachable step (Initial elasticPool) u :=
      (Reachable.of_init ⟨keepAlive, rfl⟩).run hu
    have hretired : v.ledger.Retired connection.requestHandle :=
      .of_takesBack (ledger_sound hreach) hfound (ledger_step hv)
    have hnever := never_lent_again (hreach.run (run_singleton.trans hv)) hretired hrest
    rw [timesLent, tally_append _ hu, timesLent, tally, hv]
    simp [hnever, World.lent, World.entry, Entry.lent]

theorem keep_alive_limit_expire :
    timesLent keepAliveOnce false 0 expire = 1 ∧
      timesLent keepAliveOnce false 0 expire =
        timesLent keepAliveOnce false 0 (openAll [some 0] ++ lendFirst keepAliveOnce) := by
  have hrun : run step (.new keepAliveOnce false) expire =
      some (afterwards keepAliveOnce expire) := by decide
  have hlimit := keep_alive_limit hrun
  exact ⟨by decide, hlimit.2.2 _ (openConnection keepAliveOnce 0 0) 5 _ rfl (by decide)⟩

end Overload.Pool
