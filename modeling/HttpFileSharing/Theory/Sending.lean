import HttpFileSharing.Core.Http

/-!
# Sending in Pieces

What the send loops put on the wire. Each call takes as much as it takes, and
the loop goes on with the rest, so as long as every call takes something the
whole buffer is on the wire when the loop ends, and it ends after at most as
many calls as there are bytes.

The loop that sends a file makes the same calls as the loop that sends a
buffer holding the first bytes of the file: its offset and its total are kept
equal, and what it offers at an offset is what the buffer has there. One
lemma about the first loop is then enough for both.

## Main definitions

* `AllSent`: Every call accepts something.
* `Stream.bytes`: What a stream can give.

## Theorems

* `calls_next`, `calls_same`: What is counted.
* `accept_some`, `accept_none`, `accept_spec`: One call.
* `sendLoop_spec`: The loop puts the rest of the buffer on the wire.
* `sendLoop_mono`: More turns do not change a result.
* `sendFileLoop_eq_sendLoop`: Sending a file is sending its first bytes.
* `sendWrapper_spec`, `sendFile_spec`: The two sends as a whole.
* `sendWrapper_ok`, `sendFile_short`: What a send that ends has sent.
-/

namespace HttpFileSharing

/-- Every `send` and `sendfile` accepts at least a byte. -/
def AllSent (answers : Answers) : Prop := ∀ i, ∃ n, answers i = some (n + 1)

/-- One call more is counted. -/
theorem calls_next (out : Outbound) (ask : Nat × Nat) (wire : Bytes) (streams : List StreamEvent) :
    (Outbound.mk (out.asked ++ [ask]) wire streams).calls = out.calls + 1 := by
  rw [Outbound.calls, Outbound.calls, List.length_append, List.length_singleton]

/-- Only calls are counted. -/
theorem calls_same (out : Outbound) (wire : Bytes) (streams : List StreamEvent) :
    (Outbound.mk out.asked wire streams).calls = out.calls := rfl

/-- A call that succeeds takes a leading part of what it is offered. -/
theorem accept_some (answers : Answers) (out out' : Outbound) (data : Bytes) (pos count n : Nat)
    (h : out.accept answers data pos count = (some n, out')) :
    n ≤ ((data.drop pos).take count).length ∧ out' = { out with
      asked := out.asked ++ [(pos, count)]
      wire := out.wire ++ ((data.drop pos).take count).take n } := by
  rw [Outbound.accept] at h
  generalize (data.drop pos).take count = offered at h ⊢
  split at h
  · exact absurd (congrArg Prod.fst h) (by simp only [reduceCtorEq, not_false_eq_true])
  · rename_i k _
    rw [Prod.mk.injEq, Option.some.injEq] at h
    rcases h with ⟨hn, rfl⟩
    -- Taking as many as were accepted is taking as many as the call would.
    have htake : offered.take n = offered.take k := by
      rw [← hn, List.length_take, List.take_eq_take_iff]
      omega
    rw [htake]
    refine ⟨?_, rfl⟩
    rw [← hn, List.length_take]
    omega

/-- A call that fails takes nothing. -/
theorem accept_none (answers : Answers) (out out' : Outbound) (data : Bytes) (pos count : Nat)
    (h : out.accept answers data pos count = (none, out')) :
    out' = { out with asked := out.asked ++ [(pos, count)] } := by
  rw [Outbound.accept] at h
  split at h
  · exact (congrArg Prod.snd h).symm
  · exact absurd (congrArg Prod.fst h) (by simp only [reduceCtorEq, not_false_eq_true])

/-- One call takes a leading part of what it is offered, and not none of
    it. -/
theorem accept_spec (answers : Answers) (hall : AllSent answers) (out : Outbound) (data : Bytes)
    (pos count : Nat) (hne : (data.drop pos).take count ≠ []) :
    ∃ n, 0 < n ∧ n ≤ ((data.drop pos).take count).length ∧
      out.accept answers data pos count = (some n, { out with
        asked := out.asked ++ [(pos, count)]
        wire := out.wire ++ ((data.drop pos).take count).take n }) := by
  rcases hall out.calls with ⟨k, hk⟩
  have hpos := List.length_pos_iff.mpr hne
  have haccept : out.accept answers data pos count
      = (some (((data.drop pos).take count).take (k + 1)).length, { out with
          asked := out.asked ++ [(pos, count)]
          wire := out.wire ++ ((data.drop pos).take count).take (k + 1) }) := by
    rw [Outbound.accept, hk]
  rcases accept_some answers out _ data pos count _ haccept with ⟨hle, hout⟩
  refine ⟨_, ?_, hle, by rw [haccept, hout]⟩
  rw [List.length_take]
  omega

/-- The loop puts the rest of the buffer on the wire. -/
theorem sendLoop_spec (answers : Answers) (hall : AllSent answers) (buffer : Bytes)
    (fuel : Nat) (out : Outbound) (total remaining : Nat)
    (hrest : total + remaining = buffer.length) (hfuel : remaining < fuel) :
    ∃ asked, sendLoop answers buffer fuel out total remaining
      = .ok (buffer.length, { out with
          asked := asked
          wire := out.wire ++ buffer.drop total }) := by
  induction fuel generalizing out total remaining with
  | zero => exact absurd hfuel (Nat.not_lt_zero _)
  | succ fuel ih =>
      rw [sendLoop]
      -- As long as there is more, a call takes some of it and the rest is left.
      by_cases hmore : total < buffer.length
      · have hlen : (buffer.drop total).length = remaining := by
          rw [List.length_drop]
          omega
        have hoffer : (buffer.drop total).take remaining = buffer.drop total := by
          rw [← hlen, List.take_length]
        have hne : buffer.drop total ≠ [] := List.ne_nil_of_length_pos (by omega)
        rcases accept_spec answers hall out buffer total remaining (hoffer.symm ▸ hne) with
          ⟨n, hn, hle, haccept⟩
        rw [hoffer] at hle haccept
        rw [if_pos hmore, haccept]
        rcases ih { out with
          asked := out.asked ++ [(total, remaining)]
          wire := out.wire ++ (buffer.drop total).take n } (total + n) (remaining - n)
          (by omega) (by omega) with ⟨asked, hrun⟩
        refine ⟨asked, hrun.trans ?_⟩
        simp only [List.append_assoc, ← List.drop_drop, List.take_append_drop]
      · have hdone : buffer.drop total = [] := List.drop_eq_nil_of_le (by omega)
        refine ⟨out.asked, ?_⟩
        rw [if_neg hmore, hdone, List.append_nil, show total = buffer.length by omega]

/-- At an offset, a file offers what a buffer with its first bytes does. -/
theorem take_drop_take (content : Bytes) (size total remaining : Nat)
    (hrest : total + remaining = size) :
    ((content.take size).drop total).take remaining = (content.drop total).take remaining := by
  rw [List.drop_take, List.take_take]
  congr 1
  omega

/-- A call for the first bytes of a file is one for those of a buffer with
    them. -/
theorem accept_take (answers : Answers) (out : Outbound) (content : Bytes)
    (size total remaining : Nat) (hrest : total + remaining = size) :
    out.accept answers (content.take size) total remaining
      = out.accept answers content total remaining := by
  rw [Outbound.accept, Outbound.accept, take_drop_take content size total remaining hrest]

/-- Sending a file makes the calls of sending a buffer with its first
    bytes. -/
theorem sendFileLoop_eq_sendLoop (answers : Answers) (content : Bytes) (size : Nat)
    (hsize : size ≤ content.length) (fuel : Nat) (out : Outbound) (total remaining : Nat)
    (hrest : total + remaining = size) :
    sendFileLoop answers (.regular content) size fuel out total total remaining
      = sendLoop answers (content.take size) fuel out total remaining := by
  have hlen : (content.take size).length = size := by
    rw [List.length_take]
    omega
  induction fuel generalizing out total remaining with
  | zero => rfl
  | succ fuel ih =>
      rw [sendFileLoop, sendLoop, hlen, accept_take answers out content size total remaining hrest,
        sendfile]
      by_cases hmore : total < size
      · rw [if_pos hmore, if_pos hmore]
        cases haccept : out.accept answers content total remaining with
        | mk count out' =>
            cases count with
            | none => rfl
            | some n =>
                -- No call takes more than remained.
                have hn := (accept_some answers out out' _ _ _ n haccept).1
                rw [List.length_take] at hn
                exact ih out' (total + n) (remaining - n) (by omega)
      · rw [if_neg hmore, if_neg hmore]

/-- Sending a buffer puts it on the wire. -/
theorem sendWrapper_spec (answers : Answers) (hall : AllSent answers) (fuel : Nat)
    (out : Outbound) (buffer : Bytes) (hfuel : buffer.length < fuel) :
    ∃ asked, sendWrapper answers fuel out buffer
      = .ok (buffer.length, { out with asked := asked, wire := out.wire ++ buffer }) :=
  sendLoop_spec answers hall buffer fuel out 0 buffer.length (Nat.zero_add _) hfuel

/-- A buffer is sent the same with more turns to send it in. -/
theorem sendLoop_mono (answers : Answers) (buffer : Bytes) (fuel fuel' : Nat)
    (hfuel : fuel ≤ fuel') (out : Outbound) (total remaining : Nat) (result : Int × Outbound)
    (h : sendLoop answers buffer fuel out total remaining = .ok result) :
    sendLoop answers buffer fuel' out total remaining = .ok result := by
  induction fuel generalizing fuel' out total remaining with
  | zero => exact absurd h (by simp only [sendLoop, reduceCtorEq, not_false_eq_true])
  | succ fuel ih =>
      cases fuel' with
      | zero => exact absurd hfuel (Nat.not_succ_le_zero _)
      | succ fuel' =>
          rw [sendLoop] at h ⊢
          by_cases hmore : total < buffer.length
          · rw [if_pos hmore] at h ⊢
            -- The call is the same on both sides, and so is what follows it.
            cases haccept : out.accept answers buffer total remaining with
            | mk count out' =>
                rw [haccept] at h
                cases count with
                | none => exact h
                | some n => exact ih fuel' (Nat.le_of_succ_le_succ hfuel) _ _ _ h
          · rw [if_neg hmore] at h ⊢
            exact h

/-- However many turns it took, a send that ended has put the buffer on the
    wire and counts its bytes. -/
theorem sendWrapper_ok (answers : Answers) (hall : AllSent answers) (fuel : Nat)
    (out : Outbound) (buffer : Bytes) (result : Int × Outbound)
    (h : sendWrapper answers fuel out buffer = .ok result) :
    result.1 = buffer.length ∧ result.2.wire = out.wire ++ buffer := by
  -- With enough turns the result is known, and it is this one.
  have hmore := sendLoop_mono answers buffer fuel (fuel + buffer.length + 1) (by omega) out 0
    buffer.length result h
  rcases sendWrapper_spec answers hall (fuel + buffer.length + 1) out buffer (by omega) with
    ⟨asked, hspec⟩
  rw [sendWrapper, hmore] at hspec
  rw [Except.ok.inj hspec]
  exact ⟨rfl, rfl⟩

/-- What can be sent of a stream: nothing, where it is not a regular file. -/
def Stream.bytes : Stream → Bytes
  | .regular content => content
  | .special => []

/-- Sending a file puts its first bytes on the wire. -/
theorem sendFile_spec (answers : Answers) (hall : AllSent answers) (fuel : Nat)
    (out : Outbound) (stream : Stream) (size : Nat) (hsize : size ≤ stream.bytes.length)
    (hfuel : size < fuel) :
    ∃ asked, TCPConnection.sendFile answers fuel out (some stream) size
      = .ok (size, {
          asked := asked
          wire := out.wire ++ stream.bytes.take size
          streams := out.streams ++ [.fopen, .fclose] }) := by
  cases stream with
  | special =>
      -- Only the empty file can be sent, and it takes no call.
      have hzero : size = 0 := Nat.le_zero.mp hsize
      cases fuel with
      | zero => exact absurd hfuel (Nat.not_lt_zero _)
      | succ fuel =>
          refine ⟨out.asked, ?_⟩
          rw [TCPConnection.sendFile, hzero]
          simp only [sendFileLoop, Nat.lt_irrefl, if_false, List.take_zero, List.append_nil,
            List.append_assoc]
          rfl
  | regular content =>
      rw [Stream.bytes] at hsize
      have hlen : (content.take size).length = size := by
        rw [List.length_take]
        omega
      rcases sendLoop_spec answers hall (content.take size) fuel
        { out with streams := out.streams ++ [.fopen] } 0 size (by omega) hfuel with
        ⟨asked, hrun⟩
      refine ⟨asked, ?_⟩
      rw [TCPConnection.sendFile]
      simp only [sendFileLoop_eq_sendLoop answers content size hsize fuel _ 0 size
        (Nat.zero_add _), hrun, hlen, List.append_assoc, List.drop_zero]
      rfl

/-- Of a stream that is not a regular file nothing is sent. -/
theorem sendFile_short (answers : Answers) (fuel : Nat) (out : Outbound) (size : Nat)
    (hsize : 0 < size) (result : Int × Outbound)
    (h : TCPConnection.sendFile answers fuel out (some .special) size = .ok result) :
    result.2.wire = out.wire := by
  rw [TCPConnection.sendFile] at h
  cases fuel with
  | zero => exact absurd h (by simp only [sendFileLoop, reduceCtorEq, not_false_eq_true])
  | succ fuel =>
      simp only [sendFileLoop, if_pos hsize, sendfile, Except.ok.injEq] at h
      rw [← h]

end HttpFileSharing
