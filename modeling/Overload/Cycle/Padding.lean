import Overload.Cycle.Dispatch

namespace Overload.Cycle

open Pool (HttpConnection)

variable {Req : Type}

namespace Fill

inductive Ends : Fill Req → List Req → Prop
  | done (fill : Fill Req) (hnext : fill.next = none) : Ends fill fill.requestsToSend
  | turn (fill fill' : Fill Req) (requests : List Req) (hnext : fill.next = some fill')
      (hends : Ends fill' requests) : Ends fill requests

structure Repeats (requests : List Req) (fill : Fill Req) : Prop where
  available : fill.availableReq = requests.length
  index : fill.requestsToSend.length % requests.length = fill.i % requests.length
  within : fill.i ≤ requests.length
  repeated : ∀ j < fill.requestsToSend.length,
    fill.requestsToSend[j]? = requests[j % requests.length]?

variable {requests : List Req} {fill fill' : Fill Req}

theorem repeats_start (availableConnection : Nat) (requests : List Req) :
    Repeats requests (.start availableConnection requests) where
  available := rfl
  index := Nat.mod_self _
  within := Nat.zero_le _
  repeated := fun _ hj => congrArg (requests[·]?) (Nat.mod_eq_of_lt hj).symm

theorem Repeats.next (h : Repeats requests fill) (hnext : fill.next = some fill') :
    Repeats requests fill' := by
  rw [Fill.next] at hnext
  split at hnext
  · cases hnext
  · split at hnext
    · rename_i hi
      cases hnext
      have hk : fill.i < requests.length := h.available ▸ hi
      have hilen : fill.i < fill.requestsToSend.length := Nat.lt_of_lt_of_le hi fill.available_le
      have hcopy : fill.requestsToSend[fill.i]? =
          requests[fill.requestsToSend.length % requests.length]? := by
        rw [h.index, ← h.repeated fill.i hilen]
      refine ⟨h.available, ?_, hk, fun j hj => ?_⟩
      · simp only [List.length_append, List.length_singleton]
        rw [Nat.add_mod, h.index, ← Nat.add_mod]
      · simp only [List.length_append, List.length_singleton] at hj
        rcases Nat.lt_or_eq_of_le (Nat.lt_succ_iff.mp hj) with hlt | rfl
        · rw [List.getElem?_append_left hlt]
          exact h.repeated j hlt
        · rw [List.getElem?_append_right (Nat.le_refl _), Nat.sub_self, ← hcopy,
            List.getElem?_eq_getElem hilen]
          rfl
    · rename_i hi
      cases hnext
      have hend : fill.i = requests.length :=
        Nat.le_antisymm h.within (h.available ▸ Nat.le_of_not_lt hi)
      refine ⟨h.available, ?_, Nat.zero_le _, h.repeated⟩
      rw [h.index, hend, Nat.mod_self, Nat.zero_mod]

theorem Repeats.ends (h : Repeats requests fill) (hne : requests ≠ []) :
    ∃ result, fill.Ends result ∧
      result.length = fill.requestsToSend.length + fill.needToInsert ∧
      ∀ j < result.length, result[j]? = requests[j % requests.length]? := by
  induction hn : fill.turns using Nat.strongRecOn generalizing fill with
  | ind n ih =>
    cases hnext : fill.next with
    | none =>
      refine ⟨fill.requestsToSend, .done fill hnext, ?_, h.repeated⟩
      rw [next_eq_none.mp hnext, Nat.add_zero]
    | some fill' =>
      obtain ⟨_, hlength, hturns⟩ := next_eq_some hnext
      have hreq : 0 < fill.availableReq := h.available ▸ List.length_pos_iff.mpr hne
      obtain ⟨result, hends, hresult, hrepeated⟩ :=
        ih fill'.turns (hn ▸ hturns hreq) (h.next hnext) rfl
      exact ⟨result, .turn fill fill' result hnext hends, hresult.trans hlength, hrepeated⟩

theorem not_ends_of_nothing {result : List Req} (hreq : fill.availableReq = 0)
    (hneed : fill.needToInsert ≠ 0) : ¬ fill.Ends result := by
  intro h
  induction h with
  | done fill hnext => exact hneed (next_eq_none.mp hnext)
  | turn fill fill' result hnext _ ih =>
    rw [next_of_nothing hreq hneed] at hnext
    cases hnext
    exact ih hreq hneed

end Fill

/-- The call made for this answer, if one is made, ends with the answered requests repeated
until there is one for each connection. -/
def Pads (s : Session Req) (loop : Loop) (connections : List HttpConnection)
    (requests : List Req) : Prop :=
  ∀ fill, (s.sendRequests loop connections (.ok requests)).phase =
      .filling loop connections fill →
    ∃ result, fill.Ends result ∧ result.length = max connections.length requests.length ∧
      ∀ j < result.length, result[j]? = requests[j % requests.length]?

variable {s : Session Req} {loop : Loop} {connections : List HttpConnection}
  {requests : List Req}

theorem pads_of_ne_nil (hne : requests ≠ []) : Pads s loop connections requests := by
  intro fill hfill
  simp only [Session.sendRequests] at hfill
  split at hfill
  · cases hfill
  · split at hfill
    · rename_i hless
      cases hfill
      obtain ⟨result, hends, hlength, hrepeated⟩ :=
        (Fill.repeats_start connections.length requests).ends hne
      refine ⟨result, hends, ?_, hrepeated⟩
      rw [hlength, Nat.max_eq_left (Nat.le_of_lt hless)]
      exact Nat.add_sub_cancel' (Nat.le_of_lt hless)
    · cases hfill

theorem not_pads_of_nothing (hmode : s.mode = .batch) (hconnections : 1 ≤ connections.length) :
    ¬ Pads s loop connections [] := by
  intro h
  have hphase : (s.sendRequests loop connections (.ok [])).phase =
      .filling loop connections (.start connections.length []) := by
    have hcall : ([] : List Req).length < connections.length := hconnections
    simp only [Session.sendRequests, hmode, reduceCtorEq, false_and, if_false, if_pos hcall]
  have hneed : (Fill.start connections.length ([] : List Req)).needToInsert ≠ 0 :=
    Nat.ne_of_gt hconnections
  obtain ⟨result, hends, _⟩ := h _ hphase
  exact Fill.not_ends_of_nothing rfl hneed hends

def loopOfTwo : Loop := ⟨2, 2, Nat.two_pos, Nat.two_pos⟩

def twoConnections : List HttpConnection :=
  [Pool.openConnection Pool.keepAliveForever 0 0, Pool.openConnection Pool.keepAliveForever 1 0]

theorem batch_never_pads_nothing :
    ¬ Pads (Session.new Nat .batch 10 Pool.keepAliveForever false) loopOfTwo twoConnections [] :=
  not_pads_of_nothing rfl (Nat.le_succ 1)

/-- Every call ends and pads, but for that of `send_multiple_requests` with no request. -/
theorem pads_iff (s : Session Req) (loop : Loop) (connections : List HttpConnection)
    (requests : List Req) (hconnections : 1 ≤ connections.length) :
    Pads s loop connections requests ↔ ¬ (s.mode = .batch ∧ requests = []) := by
  constructor
  · rintro h ⟨hmode, rfl⟩
    exact not_pads_of_nothing hmode hconnections h
  · intro h
    by_cases hne : requests = []
    · subst hne
      have hmode : s.mode = .immediate := by
        cases hmode : s.mode with
        | batch => exact absurd ⟨hmode, rfl⟩ h
        | immediate => rfl
      -- `send_n_request_in_t_duration` has returned before the call
      intro fill hfill
      simp [Session.sendRequests, hmode] at hfill
    · exact pads_of_ne_nil hne

theorem pads_one_request :
    Pads (Session.new Nat .batch 10 Pool.keepAliveForever false) loopOfTwo twoConnections [7] :=
  (pads_iff _ loopOfTwo twoConnections [7] (Nat.le_succ 1)).mpr (by simp)

end Overload.Cycle
