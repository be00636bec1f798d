import HttpFileSharing.Theory.Paths
import HttpFileSharing.Theory.Sending

/-!
# What a Send Delivers

What can be said of the sends when the calls may do anything: fail, take
nothing, take a part. A send that returns a count has put exactly its data on
the wire and returns its length; one that returns −1 has put a leading part of
it there. The position, what is left and the length stay in step, so no call
asks for a byte beyond the end.

The response is sent in two parts, and the second count is added to the first
before anything is compared with −1. A file that cannot be sent behind a head
that was sent is then reported as one byte less than the head.

## Main definitions

* `Delivers`: What a send that returned has put on the wire.
* `AsksWithin`: The calls on the way ask for nothing beyond the end.
* `PartFailed`, `Reported`: A part of a response was not sent, and what the
  caller is told.

## Theorems

* `sendLoop_delivers`: What the loop delivers.
* `sendLoop_asks`: What the calls of the loop ask for.
* `sends_deliver`: Both sends deliver their data.
* `sendFileLoop_count`: A file send that returns counts what it sent.
* `report_exact`: The exact condition for a faithful report.
* `report_fails`: A file that is not sent behind its head.
-/

namespace HttpFileSharing

section Calls

variable (answers : Answers)

/-- What a send of `data` that returned `ret` has put on the wire: all of it,
    with `count` as the result, or a leading part after a failure. -/
def Delivers (count : Nat) (data : Bytes) (out : Outbound) (ret : Int) (out' : Outbound) :
    Prop :=
  (ret ≠ -1 → ret = count ∧ out'.wire = out.wire ++ data) ∧
    (ret = -1 → ∃ sent, sent <+: data ∧ out'.wire = out.wire ++ sent)

/-- The calls made on the way ask for nothing beyond the end of `size` bytes. -/
def AsksWithin (size : Nat) (out out' : Outbound) : Prop :=
  ∃ asked, out'.asked = out.asked ++ asked ∧ ∀ c ∈ asked, c.1 + c.2 ≤ size

/-- The loop delivers the rest of the buffer. -/
theorem sendLoop_delivers (buffer : Bytes) (fuel : Nat) (out : Outbound) (total remaining : Nat)
    (hrest : total + remaining = buffer.length) (ret : Int) (out' : Outbound)
    (h : sendLoop answers buffer fuel out total remaining = .ok (ret, out')) :
    Delivers buffer.length (buffer.drop total) out ret out' := by
  induction fuel generalizing out total remaining with
  | zero => exact absurd h (by simp only [sendLoop, reduceCtorEq, not_false_eq_true])
  | succ fuel ih =>
      rw [sendLoop] at h
      by_cases hmore : total < buffer.length
      · have hoffer : (buffer.drop total).take remaining = buffer.drop total := by
          rw [List.take_of_length_le]
          rw [List.length_drop]
          omega
        rw [if_pos hmore] at h
        cases haccept : out.accept answers buffer total remaining with
        | mk count next =>
            rw [haccept] at h
            cases count with
            | none =>
                -- A call that fails ends the loop with what was sent before.
                rw [Except.ok.injEq, Prod.mk.injEq] at h
                rcases h with ⟨rfl, rfl⟩
                refine ⟨fun hne => absurd rfl hne, fun _ => ⟨[], List.nil_prefix, ?_⟩⟩
                rw [accept_none answers out _ _ _ _ haccept, List.append_nil]
            | some n =>
                rcases accept_some answers out next _ _ _ n haccept with ⟨hn, rfl⟩
                rw [hoffer] at hn h
                rw [List.length_drop] at hn
                rcases ih _ (total + n) (remaining - n) (by omega) h with ⟨hall, hpart⟩
                -- What a call takes and what the rest of the loop sends make up the rest.
                have hsplit : (buffer.drop total).take n ++ buffer.drop (total + n)
                    = buffer.drop total := by
                  rw [← List.drop_drop, List.take_append_drop]
                refine ⟨fun hne => ?_, fun hfail => ?_⟩
                · rcases hall hne with ⟨hret, hwire⟩
                  refine ⟨hret, ?_⟩
                  rw [hwire, List.append_assoc, hsplit]
                · rcases hpart hfail with ⟨sent, hsent, hwire⟩
                  have hmore :=
                    (List.prefix_append_right_inj ((buffer.drop total).take n)).mpr hsent
                  rw [hsplit] at hmore
                  refine ⟨(buffer.drop total).take n ++ sent, hmore, ?_⟩
                  rw [hwire, List.append_assoc]
      · -- The position has come to the end.
        rw [if_neg hmore, Except.ok.injEq, Prod.mk.injEq] at h
        rcases h with ⟨rfl, rfl⟩
        have hdone : buffer.drop total = [] := List.drop_eq_nil_of_le (by omega)
        refine ⟨fun _ => ⟨?_, ?_⟩, fun hfail => absurd hfail (by omega)⟩
        · omega
        · rw [hdone, List.append_nil]

/-- The position and what is left end where the buffer does, so no call asks for
    more. -/
theorem sendLoop_asks (buffer : Bytes) (fuel : Nat) (out : Outbound) (total remaining : Nat)
    (hrest : total + remaining = buffer.length) (ret : Int) (out' : Outbound)
    (h : sendLoop answers buffer fuel out total remaining = .ok (ret, out')) :
    AsksWithin buffer.length out out' := by
  induction fuel generalizing out total remaining with
  | zero => exact absurd h (by simp only [sendLoop, reduceCtorEq, not_false_eq_true])
  | succ fuel ih =>
      rw [sendLoop] at h
      by_cases hmore : total < buffer.length
      · rw [if_pos hmore] at h
        cases haccept : out.accept answers buffer total remaining with
        | mk count next =>
            rw [haccept] at h
            cases count with
            | none =>
                rw [Except.ok.injEq, Prod.mk.injEq] at h
                refine ⟨[(total, remaining)], ?_, List.forall_mem_singleton.mpr hrest.le⟩
                rw [← h.2, accept_none answers out _ _ _ _ haccept]
            | some n =>
                rcases accept_some answers out next _ _ _ n haccept with ⟨hn, rfl⟩
                rw [List.length_take] at hn
                rcases ih _ (total + n) (remaining - n) (by omega) h with ⟨asked, hasked, hends⟩
                refine ⟨(total, remaining) :: asked, ?_, List.forall_mem_cons.mpr ⟨hrest.le, hends⟩⟩
                rw [hasked, List.append_assoc, List.singleton_append]
      · rw [if_neg hmore, Except.ok.injEq, Prod.mk.injEq] at h
        exact ⟨[], by rw [← h.2, List.append_nil], fun c hc => absurd hc List.not_mem_nil⟩

/-- Both sends deliver their data, a buffer or the first bytes of a file, and
    none of their calls asks for a byte beyond the end. A call of a send that
    goes on for ever is one of a send that returns, where the next call fails. -/
theorem sends_deliver (fuel : Nat) (out : Outbound) (ret : Int) (out' : Outbound) :
    (∀ buffer, sendWrapper answers fuel out buffer = .ok (ret, out') →
      Delivers buffer.length buffer out ret out' ∧ AsksWithin buffer.length out out') ∧
    ∀ content size, size ≤ content.length →
      TCPConnection.sendFile answers fuel out (some (.regular content)) size = .ok (ret, out') →
      Delivers size (content.take size) out ret out' ∧ AsksWithin size out out' := by
  refine ⟨fun buffer h => ⟨?_, ?_⟩, fun content size hsize h => ?_⟩
  · exact sendLoop_delivers answers buffer fuel out 0 buffer.length (Nat.zero_add _) ret out' h
  · exact sendLoop_asks answers buffer fuel out 0 buffer.length (Nat.zero_add _) ret out' h
  · -- The file is sent as a buffer with its first bytes would be.
    have hlen : (content.take size).length = size := by
      rw [List.length_take]
      omega
    rw [TCPConnection.sendFile] at h
    simp only [sendFileLoop_eq_sendLoop answers content size hsize fuel _ 0 size
      (Nat.zero_add _)] at h
    split at h
    · exact absurd h (by simp only [reduceCtorEq, not_false_eq_true])
    · rename_i ret' sent hloop
      rw [Except.ok.injEq, Prod.mk.injEq] at h
      rcases h with ⟨rfl, rfl⟩
      have hdelivers := sendLoop_delivers answers (content.take size) fuel _ 0 size
        (by omega) ret' sent hloop
      have hasks := sendLoop_asks answers (content.take size) fuel _ 0 size (by omega) ret' sent
        hloop
      rw [hlen, List.drop_zero] at hdelivers
      rw [hlen] at hasks
      exact ⟨hdelivers, hasks⟩

end Calls

/-- A buffer of two bytes and two bytes of a file of three, one at a time. -/
theorem sends_deliver_parts :
    (Delivers 2 ['a', 'b'] {} 2 ⟨[(0, 2), (1, 1)], ['a', 'b'], []⟩ ∧
      AsksWithin 2 {} ⟨[(0, 2), (1, 1)], ['a', 'b'], []⟩) ∧
    Delivers 2 ['a', 'b'] {} 2 ⟨[(0, 2), (1, 1)], ['a', 'b'], [.fopen, .fclose]⟩ ∧
      AsksWithin 2 {} ⟨[(0, 2), (1, 1)], ['a', 'b'], [.fopen, .fclose]⟩ :=
  ⟨(sends_deliver (fun _ => some 1) 3 {} 2 ⟨[(0, 2), (1, 1)], ['a', 'b'], []⟩).1 ['a', 'b']
      (by decide),
    (sends_deliver (fun _ => some 1) 3 {} 2
      ⟨[(0, 2), (1, 1)], ['a', 'b'], [.fopen, .fclose]⟩).2 ['a', 'b', 'c'] 2 (by decide)
      (by decide)⟩

section Report

variable (answers : Answers)

/-- The send loops end without a result only by not ending. -/
theorem sendFileLoop_error (stream : Stream) (size : Nat) (fuel : Nat) (out : Outbound)
    (off total remaining : Nat) (e : Fault)
    (h : sendFileLoop answers stream size fuel out off total remaining = .error e) :
    e = .running := by
  induction fuel generalizing out off total remaining with
  | zero => exact (Except.error.inj h).symm
  | succ fuel ih =>
      rw [sendFileLoop] at h
      by_cases hmore : total < size
      · rw [if_pos hmore] at h
        split at h
        · exact absurd h (by simp only [reduceCtorEq, not_false_eq_true])
        · exact ih _ _ _ _ h
      · rw [if_neg hmore] at h
        exact absurd h (by simp only [reduceCtorEq, not_false_eq_true])

theorem sendWrapper_error (buffer : Bytes) (fuel : Nat) (out : Outbound) (e : Fault)
    (h : sendWrapper answers fuel out buffer = .error e) : e = .running := by
  -- A buffer is sent as a file with these bytes would be.
  have hfile := sendFileLoop_eq_sendLoop answers buffer buffer.length (Nat.le_refl _) fuel out 0 _
    (Nat.zero_add _)
  rw [List.take_length] at hfile
  rw [sendWrapper, ← hfile] at h
  exact sendFileLoop_error answers _ _ fuel out 0 0 _ e h

/-- One `sendfile` counts what it puts on the wire. -/
theorem sendfile_count (stream : Stream) (out out' : Outbound) (off remaining n off' : Nat)
    (h : sendfile answers stream out off remaining = (some n, off', out')) :
    out'.wire.length = out.wire.length + n := by
  cases stream with
  | special => exact absurd (congrArg Prod.fst h) (by simp only [sendfile, reduceCtorEq,
      not_false_eq_true])
  | regular content =>
      simp only [sendfile] at h
      split at h
      · exact absurd (congrArg Prod.fst h) (by simp only [reduceCtorEq, not_false_eq_true])
      · rename_i k next haccept
        simp only [Prod.mk.injEq, Option.some.injEq] at h
        rcases h with ⟨rfl, _, rfl⟩
        rcases accept_some answers out next _ _ _ k haccept with ⟨hk, rfl⟩
        rw [List.length_append, List.length_take_of_le hk]

/-- A file send that returns counts what it put on the wire. -/
theorem sendFileLoop_count (stream : Stream) (size : Nat) (fuel : Nat) (out : Outbound)
    (off total remaining : Nat) (ret : Int) (out' : Outbound)
    (h : sendFileLoop answers stream size fuel out off total remaining = .ok (ret, out'))
    (hret : ret ≠ -1) : ret + out.wire.length = total + out'.wire.length := by
  induction fuel generalizing out off total remaining with
  | zero => exact absurd h (by simp only [sendFileLoop, reduceCtorEq, not_false_eq_true])
  | succ fuel ih =>
      rw [sendFileLoop] at h
      by_cases hmore : total < size
      · rw [if_pos hmore] at h
        split at h
        · rw [Except.ok.injEq, Prod.mk.injEq] at h
          exact absurd h.1.symm hret
        · rename_i n off' next hcall
          have hcount := sendfile_count answers stream out next off remaining n off' hcall
          have hrest := ih next (total + n) (total + n) (remaining - n) h
          omega
      · rw [if_neg hmore, Except.ok.injEq, Prod.mk.injEq] at h
        rw [← h.1, ← h.2]

theorem sendFile_count (fuel : Nat) (out : Outbound) (stream : Stream) (size : Nat) (ret : Int)
    (out' : Outbound)
    (h : TCPConnection.sendFile answers fuel out (some stream) size = .ok (ret, out'))
    (hret : ret ≠ -1) : ret + out.wire.length = out'.wire.length := by
  simp only [TCPConnection.sendFile] at h
  split at h
  · exact absurd h (by simp only [reduceCtorEq, not_false_eq_true])
  · rename_i ret' sent hloop
    rw [Except.ok.injEq, Prod.mk.injEq] at h
    rcases h with ⟨rfl, rfl⟩
    have hcount := sendFileLoop_count answers stream size fuel _ 0 0 size ret' sent hloop hret
    exact hcount.trans (Int.zero_add _)

theorem sendFile_error (fuel : Nat) (out : Outbound) (stream : Stream) (size : Nat) (e : Fault)
    (h : TCPConnection.sendFile answers fuel out (some stream) size = .error e) :
    e = .running := by
  simp only [TCPConnection.sendFile] at h
  split at h
  · rename_i e' hloop
    exact Except.error.inj h ▸ sendFileLoop_error answers stream size fuel _ 0 0 size e' hloop
  · exact absurd h (by simp only [reduceCtorEq, not_false_eq_true])

variable (ndebug : Bool) (env : Env) (fuel : Nat) (out : Outbound) (rsp : HTTPResponse)

/-- A part of the response was not sent: its head, or the file behind it,
    which could not be opened or not be sent. -/
def PartFailed : Prop :=
  ∃ sent, sendWrapper answers fuel out (rsp.buildRsp []).2 = .ok sent ∧
    (sent.1 = -1 ∨ rsp.mRspFilename ≠ [] ∧
      (env.fs.fopen env.cwd rsp.mRspFilename = none ∨
        ∃ last, TCPConnection.sendFile answers fuel sent.2
          (env.fs.fopen env.cwd rsp.mRspFilename) rsp.mLen = .ok (-1, last)))

/-- `send_http_rsp` returns −1 if a part was not sent, and the number of bytes
    it sent otherwise. -/
def Reported : Prop :=
  ∃ ret out', sendHttpRsp ndebug env answers fuel out rsp = .ok (ret, out') ∧
    (PartFailed answers env fuel out rsp → ret = -1) ∧
    (¬ PartFailed answers env fuel out rsp → ret + out.wire.length = out'.wire.length)

/-- What it takes for that: the assert holds, and a file that is to be sent
    behind a head can be opened and is sent, or there was nothing to the
    head. -/
def Reportable : Prop :=
  (ndebug = true ∨ rsp.mStatus ≠ .httpGenErr) ∧
    ∀ sent, sendWrapper answers fuel out (rsp.buildRsp []).2 = .ok sent → sent.1 ≠ -1 →
      rsp.mRspFilename ≠ [] →
      env.fs.fopen env.cwd rsp.mRspFilename ≠ none ∧
        ((∃ last, TCPConnection.sendFile answers fuel sent.2
          (env.fs.fopen env.cwd rsp.mRspFilename) rsp.mLen = .ok (-1, last)) →
          (rsp.buildRsp []).2 = [])

/-- What has failed, once the head has been sent or not. -/
theorem partFailed_iff (n : Int) (next : Outbound)
    (hsend : sendWrapper answers fuel out (rsp.buildRsp []).2 = .ok (n, next)) :
    PartFailed answers env fuel out rsp ↔ n = -1 ∨ rsp.mRspFilename ≠ [] ∧
      (env.fs.fopen env.cwd rsp.mRspFilename = none ∨
        ∃ last, TCPConnection.sendFile answers fuel next
          (env.fs.fopen env.cwd rsp.mRspFilename) rsp.mLen = .ok (-1, last)) := by
  rw [PartFailed]
  simp only [hsend, Except.ok.injEq, exists_eq_left']

/-- The report on a head that was not sent, or that has no file behind it. -/
theorem reported_head (hassert : ¬ (ndebug = false ∧ rsp.mStatus = .httpGenErr)) (n : Int)
    (next : Outbound) (hsend : sendWrapper answers fuel out (rsp.buildRsp []).2 = .ok (n, next))
    (honly : n = -1 ∨ rsp.mRspFilename = []) : Reported answers ndebug env fuel out rsp := by
  have hfailed := partFailed_iff answers env fuel out rsp n next hsend
  have hret : sendHttpRsp ndebug env answers fuel out rsp = .ok (n, next) := by
    rw [sendHttpRsp]
    rcases honly with hn | hname
    · simp only [if_neg hassert, hsend, if_pos hn]
    · simp only [if_neg hassert, hsend, hname, ne_eq, not_true_eq_false, if_false, ite_self]
  refine ⟨n, next, hret, fun h => ?_, fun h => ?_⟩
  · rcases hfailed.mp h with h | h
    · exact h
    · exact honly.resolve_right h.1
  · -- Nothing failed, so the head is all there was.
    have hn : n ≠ -1 := fun hn => h (hfailed.mpr (Or.inl hn))
    rcases (sendLoop_delivers answers _ fuel out 0 _ (Nat.zero_add _) n next hsend).1 hn with
      ⟨hcount, hwire⟩
    rw [hcount, hwire, List.drop_zero, List.length_append]
    omega

/-- The report on a head with a file behind it that was opened: the second
    count is added to the first, also where it is −1. -/
theorem reported_file (hassert : ¬ (ndebug = false ∧ rsp.mStatus = .httpGenErr)) (n : Int)
    (next : Outbound) (hsend : sendWrapper answers fuel out (rsp.buildRsp []).2 = .ok (n, next))
    (hn : n ≠ -1) (hname : rsp.mRspFilename ≠ []) (stream : Stream)
    (hopen : env.fs.fopen env.cwd rsp.mRspFilename = some stream) (m : Int) (last : Outbound)
    (hfile : TCPConnection.sendFile answers fuel next (some stream) rsp.mLen = .ok (m, last)) :
    Reported answers ndebug env fuel out rsp ↔ (m = -1 → (rsp.buildRsp []).2 = []) := by
  have hret : sendHttpRsp ndebug env answers fuel out rsp = .ok (n + m, last) := by
    rw [sendHttpRsp]
    simp only [if_neg hassert, hsend, if_neg hn, if_pos hname, hopen, hfile]
  have hfailed : PartFailed answers env fuel out rsp ↔ m = -1 := by
    rw [partFailed_iff answers env fuel out rsp n next hsend, hopen, hfile]
    simp only [hn, hname, ne_eq, not_false_eq_true, true_and, reduceCtorEq, false_or,
      Except.ok.injEq, Prod.mk.injEq, exists_and_left, exists_eq', and_true]
  rcases (sendLoop_delivers answers _ fuel out 0 _ (Nat.zero_add _) n next hsend).1 hn with
    ⟨hcount, hwire⟩
  rw [Reported, hfailed, hret]
  constructor
  · rintro ⟨ret, out', h, hminus, _⟩ hm
    rw [Except.ok.injEq, Prod.mk.injEq] at h
    have hzero := hminus hm
    refine List.eq_nil_of_length_eq_zero ?_
    omega
  · intro hempty
    refine ⟨n + m, last, rfl, fun hm => ?_, fun hm => ?_⟩
    · rw [hcount, hempty hm, hm]
      rfl
    · have hrest := sendFile_count answers fuel next stream rsp.mLen m last hfile hm
      rw [hwire, List.drop_zero, List.length_append] at hrest
      omega

/-- The caller is told what happened exactly when the assert holds, the file
    opens, and either the file is sent or its head was empty. -/
theorem report_exact (hends : sendHttpRsp ndebug env answers fuel out rsp ≠ .error .running) :
    Reported answers ndebug env fuel out rsp ↔ Reportable answers ndebug env fuel out rsp := by
  rw [Reportable]
  by_cases hassert : ndebug = false ∧ rsp.mStatus = .httpGenErr
  · -- The process is aborted.
    refine iff_of_false (fun h => ?_) (fun h => ?_)
    · rcases h with ⟨ret, out', h, _⟩
      rw [sendHttpRsp] at h
      simp only [if_pos hassert, reduceCtorEq] at h
    · rcases h.1 with hndebug | hstatus
      · exact absurd (hassert.1.symm.trans hndebug) (by decide)
      · exact hstatus hassert.2
  · have hlive : ndebug = true ∨ rsp.mStatus ≠ .httpGenErr := by
      rcases Bool.eq_false_or_eq_true ndebug with hndebug | hndebug
      · exact Or.inl hndebug
      · exact Or.inr (fun hstatus => hassert ⟨hndebug, hstatus⟩)
    rw [and_iff_right hlive]
    cases hsend : sendWrapper answers fuel out (rsp.buildRsp []).2 with
    | error e =>
        -- The head is still being sent.
        rw [sendHttpRsp] at hends
        simp only [if_neg hassert, hsend, sendWrapper_error answers _ fuel out e hsend] at hends
        exact absurd rfl hends
    | ok sent =>
        rcases sent with ⟨n, next⟩
        simp only [Except.ok.injEq, forall_eq']
        by_cases honly : n = -1 ∨ rsp.mRspFilename = []
        · refine iff_of_true (reported_head answers ndebug env fuel out rsp hassert n next hsend
            honly) (fun hn hname => ?_)
          exact absurd honly (not_or.mpr ⟨hn, hname⟩)
        · rcases not_or.mp honly with ⟨hn, hname⟩
          rw [forall_prop_of_true hn, forall_prop_of_true hname]
          cases hopen : env.fs.fopen env.cwd rsp.mRspFilename with
          | none =>
              -- The stream that was not opened is closed.
              refine iff_of_false (fun h => ?_) (fun h => h.1 rfl)
              rcases h with ⟨ret, out', h, _⟩
              rw [sendHttpRsp] at h
              simp only [if_neg hassert, hsend, if_neg hn, ne_eq, hname, not_false_eq_true,
                if_true, hopen, TCPConnection.sendFile, reduceCtorEq] at h
          | some stream =>
              cases hfile : TCPConnection.sendFile answers fuel next (some stream) rsp.mLen with
              | error e =>
                  rw [sendHttpRsp] at hends
                  simp only [if_neg hassert, hsend, if_neg hn, ne_eq, hname, not_false_eq_true,
                    if_true, hopen, hfile,
                    sendFile_error answers fuel next stream rsp.mLen e hfile,
                    not_true_eq_false] at hends
              | ok last =>
                  rw [reported_file answers ndebug env fuel out rsp hassert n next hsend hn hname
                    stream hopen last.1 last.2 hfile]
                  simp only [ne_eq, reduceCtorEq, not_false_eq_true, true_and, Except.ok.injEq,
                    forall_exists_index]
                  refine ⟨fun h out' hlast => h (congrArg Prod.fst hlast),
                    fun h hm => h last.2 (Prod.ext hm rfl)⟩

end Report

/-- Every call takes what it is offered until the file is to be sent. -/
def headOnly : Answers := fun i => if i = 0 then some 1000 else none

/-- The file `/s/x` as a response. -/
def fileRsp : HTTPResponse := ⟨.httpOk, 2, textPlain, [], ['x']⟩

theorem report_exact_head :
    Reported headOnly true sampleEnv 3 {} fileRsp
      ↔ Reportable headOnly true sampleEnv 3 {} fileRsp :=
  report_exact headOnly true sampleEnv 3 {} fileRsp (by decide)

/-- A file that is not sent behind its head is reported as one byte less than
    the head. -/
theorem report_fails :
    ¬ ∀ answers ndebug env fuel out rsp,
      sendHttpRsp ndebug env answers fuel out rsp ≠ .error .running →
      Reported answers ndebug env fuel out rsp := by
  intro hall
  rcases hall headOnly true sampleEnv 3 {} fileRsp (by decide) with ⟨ret, out', hret, hminus, _⟩
  have hfailed : PartFailed headOnly sampleEnv 3 {} fileRsp := by
    refine ⟨_, rfl, Or.inr ⟨by decide, Or.inr ⟨_, rfl⟩⟩⟩
  rw [hminus hfailed] at hret
  have hcount : (sendHttpRsp true sampleEnv headOnly 3 {} fileRsp).map Prod.fst = .ok (-1) :=
    congrArg (Except.map Prod.fst) hret
  exact absurd hcount (by decide)

end HttpFileSharing
