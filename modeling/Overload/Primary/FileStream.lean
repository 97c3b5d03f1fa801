import Overload.Secondary.Download

namespace Overload.FileStream

open Download (Bytes Primary)
open Transition

/-- What the closure that is polled has captured; `offset` is the cursor of the file. -/
structure Reader where
  offset : Nat
  buf : Bytes
  len : Nat
  deriving DecidableEq, Repr

inductive Poll
  | pending
  | ready (item : Option (Except String Bytes))

def Reader.poll (r : Reader) (read : Option (Except String Bytes)) : Poll × Reader :=
  if r.len = 0 then (.ready none, r)
  else
    match read with
    | none => (.pending, r)
    | some (.error e) => (.ready (some (.error e)), r)
    | some (.ok bytes) =>
      let n := bytes.length
      let chunk := r.buf ++ bytes
      if n = 0 then (.ready none, r)
      else if n > r.len then
        (.ready (some (.ok (chunk.take r.len))), ⟨r.offset + n, [], 0⟩)
      else (.ready (some (.ok chunk)), ⟨r.offset + n, [], r.len - n⟩)

inductive Phase
  | seeking (start stop : Nat)
  | reading (r : Reader)
  | ended (result : Except String Unit)
  deriving DecidableEq, Repr

structure Body where
  phase : Phase
  sent : Bytes
  deriving DecidableEq, Repr

def fileStream (start stop : Nat) : Body := ⟨.seeking start stop, []⟩

def bodyFromFile (length : Nat) : Body := fileStream 0 length

inductive Action
  | seek (result : Except String Unit)
  -- the file holds `content` by now, and a read asks for up to `n` bytes
  | poll (content : Bytes) (read : Option (Except String Nat))
  deriving DecidableEq, Repr

def Body.deliver (b : Body) : Poll × Reader → Body
  | (.pending, r) => { b with phase := .reading r }
  | (.ready none, _) => { b with phase := .ended (.ok ()) }
  | (.ready (some (.error e)), _) => { b with phase := .ended (.error e) }
  | (.ready (some (.ok chunk)), r) => ⟨.reading r, b.sent ++ chunk⟩

/-- The buffer has room whenever it is read into, so that a read that brings nothing has met
the end of the file. -/
def step (b : Body) : Action → Option Body
  | .seek result =>
    match b.phase with
    | .seeking start stop =>
      some { b with
        phase :=
          match result with
          | .ok () => .reading ⟨start, [], stop - start⟩
          | .error e => .ended (.error e) }
    | _ => none
  | .poll content read =>
    match b.phase with
    | .reading r =>
      if read = some (.ok 0) then none
      else some (b.deliver (r.poll (read.map fun n => n.map fun n =>
        (content.drop r.offset).take n)))
    | _ => none

/-- The file keeps its first bytes; it may grow behind them. -/
def Action.Keeps (original : Bytes) (stop : Nat) : Action → Prop
  | .seek _ => True
  | .poll content _ => content.take stop = original.take stop

instance (original : Bytes) (stop : Nat) (a : Action) : Decidable (a.Keeps original stop) :=
  match a with
  | .seek _ => isTrue trivial
  | .poll content _ => inferInstanceAs (Decidable (content.take stop = original.take stop))

def range (original : Bytes) (start stop : Nat) : Bytes := (original.take stop).drop start

def Phase.Sent (original : Bytes) (start stop : Nat) (sent : Bytes) : Phase → Prop
  | .seeking first last => first = start ∧ last = stop ∧ sent = []
  | .reading r => r.buf = [] ∧ start ≤ stop - r.len ∧ r.len ≤ stop ∧
      (r.len ≠ 0 → r.offset + r.len = stop) ∧ sent = range original start (stop - r.len)
  | .ended (.ok _) => sent = range original start stop
  | .ended (.error _) => sent <+: range original start stop

variable {original content : Bytes} {start stop m n : Nat} {b c : Body} {r : Reader}

theorem range_append (hm : start ≤ m) (hn : m ≤ n) :
    range original start m ++ range original m n = range original start n := by
  simp only [range, List.drop_take]
  obtain ⟨k, rfl⟩ := Nat.exists_eq_add_of_le hm
  obtain ⟨l, rfl⟩ := Nat.exists_eq_add_of_le hn
  have hk : start + k + l - start = k + l := by omega
  rw [Nat.add_sub_cancel_left, Nat.add_sub_cancel_left, hk, ← List.drop_drop, List.take_add]

theorem range_isPrefix (hm : start ≤ m) (hn : m ≤ n) :
    range original start m <+: range original start n :=
  ⟨range original m n, range_append hm hn⟩

theorem take_drop_eq_range (hkeeps : content.take stop = original.take stop) (hn : m + n ≤ stop) :
    (content.drop m).take n = range original m (m + n) := by
  have htake : content.take (m + n) = original.take (m + n) := by
    rw [← Nat.min_eq_left hn, ← List.take_take, hkeeps, List.take_take]
  rw [range, ← htake, List.drop_take, Nat.add_sub_cancel_left]

inductive Polls (r : Reader) : Option (Except String Bytes) → Poll × Reader → Prop
  | complete {read : Option (Except String Bytes)} : r.len = 0 → Polls r read (.ready none, r)
  | pending : r.len ≠ 0 → Polls r none (.pending, r)
  | failed {e : String} : r.len ≠ 0 → Polls r (some (.error e)) (.ready (some (.error e)), r)
  | atEnd : r.len ≠ 0 → Polls r (some (.ok [])) (.ready none, r)
  | last {bytes : Bytes} : r.len ≠ 0 → r.len < bytes.length →
    Polls r (some (.ok bytes)) (.ready (some (.ok ((r.buf ++ bytes).take r.len))),
      ⟨r.offset + bytes.length, [], 0⟩)
  | chunk {bytes : Bytes} : bytes ≠ [] → bytes.length ≤ r.len →
    Polls r (some (.ok bytes)) (.ready (some (.ok (r.buf ++ bytes))),
      ⟨r.offset + bytes.length, [], r.len - bytes.length⟩)

theorem polls_poll (r : Reader) (read : Option (Except String Bytes)) :
    Polls r read (r.poll read) := by
  unfold Reader.poll
  split
  · exact .complete ‹_›
  rename_i hlen
  split
  · exact .pending hlen
  · exact .failed hlen
  rename_i bytes
  dsimp only
  split
  · rename_i hbytes
    obtain rfl := List.length_eq_zero_iff.mp hbytes
    exact .atEnd hlen
  rename_i hbytes
  split
  · exact .last hlen ‹_›
  · exact .chunk (mt List.length_eq_zero_iff.mpr hbytes) (Nat.le_of_not_lt ‹_›)

theorem lt_length_of_keeps (hlength : stop ≤ original.length)
    (hkeeps : content.take stop = original.take stop) (hm : m < stop) : m < content.length := by
  have hlengths := congrArg List.length hkeeps
  rw [List.length_take, List.length_take] at hlengths
  omega

theorem exists_of_map_eq_ok {offset : Nat} {read : Option (Except String Nat)} {bytes : Bytes}
    (h : (read.map fun n => n.map fun n => (content.drop offset).take n) = some (.ok bytes)) :
    ∃ n, read = some (.ok n) ∧ (content.drop offset).take n = bytes := by
  obtain ⟨_ | n, rfl, hn⟩ := Option.map_eq_some_iff.mp h
  · cases hn
  · exact ⟨n, rfl, Except.ok.inj hn⟩

theorem sent_chunk {sent : Bytes} {offset len : Nat}
    (hsent : (Phase.reading r).Sent original start stop sent)
    (hkeeps : content.take stop = original.take stop) (hne : r.len ≠ 0) (hlen : len + n = r.len)
    (hoffset : len ≠ 0 → offset = r.offset + n) :
    (Phase.reading ⟨offset, [], len⟩).Sent original start stop
      (sent ++ (content.drop r.offset).take n) := by
  obtain ⟨-, hstart, hle, hcursor, rfl⟩ := hsent
  have hend := hcursor hne
  have hfrom : stop - r.len = r.offset := by omega
  have hto : stop - len = r.offset + n := by omega
  refine ⟨rfl, ?_, ?_, fun hlen' => ?_, ?_⟩
  · dsimp only
    omega
  · dsimp only
    omega
  · have := hoffset hlen'
    dsimp only at this ⊢
    omega
  · rw [hfrom] at hstart ⊢
    dsimp only
    rw [hto, take_drop_eq_range hkeeps (by omega), range_append hstart (Nat.le_add_right ..)]

theorem sent_poll (hlength : stop ≤ original.length)
    (hsent : (Phase.reading r).Sent original start stop b.sent)
    (hkeeps : content.take stop = original.take stop) {read : Option (Except String Nat)}
    (hread : read ≠ some (.ok 0)) {answer : Poll × Reader}
    (hanswer : Polls r (read.map fun n => n.map fun n => (content.drop r.offset).take n) answer) :
    (b.deliver answer).phase.Sent original start stop (b.deliver answer).sent := by
  have ⟨hbuf, hstart, _, hoffset, heq⟩ := hsent
  generalize hbytes : (read.map fun n => n.map fun n => (content.drop r.offset).take n) = bytes
    at hanswer
  cases hanswer with
  | complete hzero => rwa [hzero] at heq
  | pending _ => exact hsent
  | failed _ => exact heq ▸ range_isPrefix hstart (Nat.sub_le ..)
  | atEnd hne =>
    -- the file does not end before `stop`
    obtain ⟨n, rfl, hn⟩ := exists_of_map_eq_ok hbytes
    have hinside : r.offset < content.length :=
      lt_length_of_keeps hlength hkeeps (by have := hoffset hne; omega)
    obtain hzero | hshort := List.take_eq_nil_iff.mp hn
    · exact absurd (congrArg (some ∘ Except.ok) hzero) hread
    · have := List.drop_eq_nil_iff.mp hshort
      omega
  | last hne hmore =>
    obtain ⟨n, rfl, rfl⟩ := exists_of_map_eq_ok hbytes
    have hn : r.len ≤ n := Nat.le_trans (Nat.le_of_lt hmore) (List.length_take_le ..)
    have hchunk : ([] ++ (content.drop r.offset).take n).take r.len =
        (content.drop r.offset).take r.len := by
      rw [List.nil_append, List.take_take, Nat.min_eq_left hn]
    rw [hbuf, hchunk]
    exact sent_chunk hsent hkeeps hne (Nat.zero_add _) fun h => absurd rfl h
  | chunk hne hfits =>
    obtain ⟨n, rfl, rfl⟩ := exists_of_map_eq_ok hbytes
    have hpos := List.length_pos_iff.mpr hne
    have hchunk : [] ++ (content.drop r.offset).take n =
        (content.drop r.offset).take ((content.drop r.offset).take n).length := by
      rw [List.nil_append, List.length_take, ← List.take_eq_take_min]
    rw [hbuf, hchunk]
    exact sent_chunk hsent hkeeps (by omega) (Nat.sub_add_cancel hfits) fun _ => rfl

theorem sent_step (hlength : stop ≤ original.length) {a : Action} (hkeeps : a.Keeps original stop)
    (hle : start ≤ stop) (hsent : b.phase.Sent original start stop b.sent)
    (h : step b a = some c) : c.phase.Sent original start stop c.sent := by
  obtain ⟨phase, sent⟩ := b
  cases a with
  | seek result =>
    cases phase with
    | seeking first last =>
      cases h
      obtain ⟨rfl, rfl, rfl⟩ := hsent
      cases result with
      | ok _ =>
        have hback : last - (last - first) = first := Nat.sub_sub_self hle
        refine ⟨rfl, Nat.le_of_eq hback.symm, Nat.sub_le .., fun _ => Nat.add_sub_of_le hle, ?_⟩
        rw [hback, range, List.drop_take, Nat.sub_self, List.take_zero]
      | error _ => exact List.nil_prefix
    | _ => cases h
  | poll content read =>
    cases phase with
    | reading r =>
      obtain ⟨hread, h⟩ := Option.ite_none_left_eq_some.mp h
      cases h
      exact sent_poll hlength hsent hkeeps hread (polls_poll r _)
    | _ => cases h

theorem sent_run (hlength : stop ≤ original.length) (hle : start ≤ stop) {as : List Action}
    (hkeeps : ∀ a ∈ as, a.Keeps original stop)
    (hrun : run step (fileStream start stop) as = some b) :
    b.phase.Sent original start stop b.sent := by
  induction as using List.reverseRecOn generalizing b with
  | nil =>
    cases hrun
    exact ⟨rfl, rfl, rfl⟩
  | append_singleton as a ih =>
    obtain ⟨c, hc, hb⟩ := run_concat_eq_some.mp hrun
    refine sent_step hlength (hkeeps a (by simp)) hle (ih (fun a' ha' => ?_) hc) hb
    exact hkeeps a' (List.mem_append_left _ ha')

theorem Phase.Sent.isPrefix {sent : Bytes} {phase : Phase}
    (h : phase.Sent original start stop sent) : sent <+: range original start stop := by
  cases phase with
  | seeking _ _ => exact h.2.2 ▸ List.nil_prefix
  | reading r => exact h.2.2.2.2 ▸ range_isPrefix h.2.1 (Nat.sub_le ..)
  | ended result =>
    cases result with
    | ok _ => exact h ▸ List.prefix_rfl
    | error _ => exact h

def Phase.rank : Phase → Nat
  | .seeking start stop => stop - start + 2
  | .reading r => r.len + 1
  | .ended _ => 0

def Phase.Fails (phase : Phase) : Prop := ∃ e, phase = .ended (.error e)

theorem rank_deliver {bytes : Bytes} {answer : Poll × Reader}
    (hanswer : Polls r (some (.ok bytes)) answer) :
    ¬ (b.deliver answer).phase.Fails ∧ (b.deliver answer).phase.rank < (Phase.reading r).rank := by
  cases hanswer with
  | complete _ => exact ⟨nofun, Nat.succ_pos _⟩
  | atEnd _ => exact ⟨nofun, Nat.succ_pos _⟩
  | last hne _ => exact ⟨nofun, Nat.succ_lt_succ (Nat.pos_of_ne_zero hne)⟩
  | chunk hne hfits =>
    have hpos := List.length_pos_iff.mpr hne
    exact ⟨nofun, Nat.succ_lt_succ (by dsimp only; omega)⟩

theorem progress (hlength : stop ≤ original.length) (hle : start ≤ stop)
    (hs : b.phase.Sent original start stop b.sent ∧ ¬ b.phase.Fails) :
    b.phase = .ended (.ok ()) ∨ ∃ a c, a.Keeps original stop ∧ step b a = some c ∧
      (c.phase.Sent original start stop c.sent ∧ ¬ c.phase.Fails) ∧
      c.phase.rank < b.phase.rank := by
  obtain ⟨phase, sent⟩ := b
  obtain ⟨hsent, hfails⟩ := hs
  cases phase with
  | seeking first last =>
    have hstep : step ⟨.seeking first last, sent⟩ (.seek (.ok ())) = some _ := rfl
    have hkeeps : Action.Keeps original stop (.seek (.ok ())) := trivial
    exact .inr ⟨_, _, hkeeps, hstep, ⟨sent_step hlength hkeeps hle hsent hstep, nofun⟩,
      Nat.lt_succ_self _⟩
  | reading r =>
    have hstep : step ⟨.reading r, sent⟩ (.poll original (some (.ok 1))) = some _ := rfl
    have hkeeps : Action.Keeps original stop (.poll original (some (.ok 1))) := rfl
    obtain ⟨hnot, hrank⟩ := rank_deliver (b := ⟨.reading r, sent⟩)
      (polls_poll r (some (.ok ((original.drop r.offset).take 1))))
    exact .inr ⟨_, _, hkeeps, hstep, ⟨sent_step hlength hkeeps hle hsent hstep, hnot⟩, hrank⟩
  | ended result =>
    cases result with
    | ok _ => exact .inl rfl
    | error e => exact absurd ⟨e, rfl⟩ hfails

/-- While the file keeps the bytes that it had when it was opened, and whatever the reads
bring: what has been sent is never wrong, a body that ends without an error is the one of
`Primary.responseFile`, and one without an error can always be brought to its end. -/
theorem body_refines_response (primary : Primary) (as : List Action) (b : Body)
    (hkeeps : ∀ a ∈ as, a.Keeps primary.content primary.content.length)
    (hrun : run step (bodyFromFile primary.content.length) as = some b) :
    b.sent <+: primary.content ∧
      (b.phase = .ended (.ok ()) → ⟨200, b.sent⟩ = primary.responseFile (.ok ())) ∧
      (¬ b.phase.Fails → ∃ more c,
        (∀ a ∈ more, a.Keeps primary.content primary.content.length) ∧
        run step b more = some c ∧ c.phase = .ended (.ok ())) := by
  have hwhole : range primary.content 0 primary.content.length = primary.content := by
    rw [range, List.take_length, List.drop_zero]
  have hsent := sent_run (Nat.le_refl _) (Nat.zero_le _) hkeeps hrun
  refine ⟨hwhole ▸ hsent.isPrefix, fun hended => ?_, fun hfails => ?_⟩
  · rw [hended] at hsent
    rw [Primary.responseFile, hsent.trans hwhole]
  · exact exists_run_of_rank (fun b => b.phase.rank)
      (fun _ hs => progress (Nat.le_refl _) (Nat.zero_le _) hs) ⟨hsent, hfails⟩

def grown : List Action :=
  [.seek (.ok ()), .poll [1, 2, 3, 4, 5] (some (.ok 2)), .poll [1, 2, 3, 4, 5] none,
    .poll [1, 2, 3, 4, 5] (some (.ok 8192)), .poll [1, 2, 3, 4, 5] none]

theorem body_refines_response_grown :
    run step (bodyFromFile 3) grown = some ⟨.ended (.ok ()), [1, 2, 3]⟩ ∧
      ⟨200, [1, 2, 3]⟩ = Download.threeBytes.responseFile (.ok ()) := by
  have hrun : run step (bodyFromFile 3) grown = some ⟨.ended (.ok ()), [1, 2, 3]⟩ := by decide
  exact ⟨hrun, (body_refines_response Download.threeBytes grown _ (by decide) hrun).2.1 rfl⟩

end Overload.FileStream
