import HttpFileSharing.Theory.Ledger
import HttpFileSharing.Theory.Paths
import HttpFileSharing.Theory.Request

/-!
# What a Receive Passes On

Two boundaries of receiving. The cut into lines finishes a line when it sees
the byte after it, and the last byte of the buffer has none, so a line that
ends with the buffer is lost. And a receive that fails is counted like one that
succeeded: the handler knows the count of a closed connection and that of a
timeout, and takes −1 for neither.

## Main definitions

* `ReceiveFailed`: The receive, or the wait for it, fails.
* `NotInvented`: A request is processed only if one was received.

## Theorems

* `line_split_exact`: The exact condition on a chunk.
* `line_split_fails`: A line that ends with the buffer.
* `receiveWithin_cases`: What a receive comes to.
* `no_request_invented_exact`: The exact condition on an outcome.
* `request_invented`: A receive that fails.
-/

namespace HttpFileSharing

/-- A chunk is cut into exactly its complete lines unless it fills the buffer
    and ends in an LF. -/
theorem line_split_exact (chunk : Bytes) (hne : chunk ≠ [])
    (hsize : chunk.length ≤ defaultBufferSize) (rest : Inbound) (buffer : List Bytes)
    (timeout : Nat) :
    CutExactly '\n' chunk
        (recvReq defaultBufferSize (some chunk :: rest) buffer timeout .ready).2.1
      ↔ (chunk.length = defaultBufferSize → chunk.getLast? ≠ some '\n') := by
  rw [cutExactly_iff, (recvReq_chunk defaultBufferSize chunk rest buffer timeout hne
    (by decide)).2]
  by_cases hfull : chunk.length = defaultBufferSize
  · -- The last byte of the buffer is the last one of the chunk.
    rw [forall_prop_of_true hfull, ← completeLines_dropLast, List.dropLast_eq_take, hfull, eq_comm]
  · rw [List.take_of_length_le (by omega)]
    exact iff_of_true rfl (fun h => absurd h hfull)

/-- One line and the beginning of another. -/
theorem line_split_exact_short :
    CutExactly '\n' "a\nb".toList
        (recvReq defaultBufferSize [some "a\nb".toList] [] 0 .ready).2.1
      ↔ ("a\nb".toList.length = defaultBufferSize → "a\nb".toList.getLast? ≠ some '\n') :=
  line_split_exact "a\nb".toList (by decide) (by decide) [] [] 0

/-- A line as long as the buffer is lost. -/
theorem line_split_fails :
    ¬ ∀ (chunk : Bytes), chunk ≠ [] → chunk.length ≤ defaultBufferSize →
      ∀ (rest : Inbound) (buffer : List Bytes) (timeout : Nat),
        CutExactly '\n' chunk
          (recvReq defaultBufferSize (some chunk :: rest) buffer timeout .ready).2.1 := by
  intro hall
  have hne : List.replicate 2047 'a' ++ ['\n'] ≠ [] := List.append_ne_nil_of_right_ne_nil _
    (List.cons_ne_nil _ _)
  have hsize : (List.replicate 2047 'a' ++ ['\n']).length = defaultBufferSize := by
    rw [List.length_append, List.length_replicate]
    rfl
  rcases hall _ hne (Nat.le_of_eq hsize) [] [] 0 with ⟨_, tail, hsplit, htail⟩
  -- No line is complete before the last byte.
  have hnone : completeLines '\n' ((List.replicate 2047 'a' ++ ['\n']).take
      (defaultBufferSize - 1)) = [] := by
    have hlen : (List.replicate 2047 'a').length = defaultBufferSize - 1 := List.length_replicate
    rw [List.take_left' hlen]
    exact completeLines_eq_nil '\n' _
      (fun hmem => absurd (List.eq_of_mem_replicate hmem) (by decide))
  rw [(recvReq_chunk defaultBufferSize _ [] [] 0 hne (by decide)).2, hnone] at hsplit
  refine htail ?_
  rw [← show _ = tail from hsplit]
  exact List.mem_append_right _ (List.mem_singleton_self _)

section Outcome

/-- `poll` fails, or the `recv` that is made does. -/
def ReceiveFailed (timeout : Nat) (poll : Poll) (inbound : Inbound) : Prop :=
  if timeout = 0 then inbound.head? = some none
  else poll = .failed ∨ poll = .ready ∧ inbound.head? = some none

/-- Without a timeout the handler is the one that is called. -/
theorem receiveWithin_zero (size : Nat) (poll : Poll) (inbound : Inbound) :
    (receiveWithin size 0 poll inbound).2 = receiveLines size inbound := rfl

/-- What a receive comes to: a timeout, a failure, a closed connection, or
    bytes and the lines cut from them. -/
theorem receiveWithin_cases (size : Nat) (hsize : 0 < size) (timeout : Nat) (poll : Poll)
    (inbound : Inbound) :
    (ReceiveFailed timeout poll inbound ∧ receiveWithin size timeout poll inbound = (-1, some []))
      ∨ ¬ ReceiveFailed timeout poll inbound ∧
        ((∃ ret, ret ≤ 0 ∧ receiveWithin size timeout poll inbound = (ret, none)) ∨
          ∃ chunk rest ret, inbound = some chunk :: rest ∧ 0 < ret ∧
            receiveWithin size timeout poll inbound
              = (ret, some (completeLines '\n' (chunk.take (size - 1))))) := by
  -- A `recv` that is made, with or without a timeout.
  have hrecv : (timeout = 0 ∨ poll = .ready) →
      (inbound.head? = some none ∧ receiveWithin size timeout poll inbound = (-1, some []))
        ∨ inbound.head? ≠ some none ∧
          ((∃ ret, ret ≤ 0 ∧ receiveWithin size timeout poll inbound = (ret, none)) ∨
            ∃ chunk rest ret, inbound = some chunk :: rest ∧ 0 < ret ∧
              receiveWithin size timeout poll inbound
                = (ret, some (completeLines '\n' (chunk.take (size - 1))))) := by
    intro hmade
    have hready : receiveWithin size timeout poll inbound
        = receiveWithin size timeout .ready inbound := by
      rcases hmade with rfl | rfl
      · rfl
      · rfl
    rw [hready]
    rcases inbound with _ | ⟨_ | chunk, rest⟩
    · refine Or.inr ⟨by decide, Or.inl ⟨0, Int.le_refl 0, ?_⟩⟩
      simp only [receiveWithin, recvReq, ite_self, TCPConnection.recv, recvWrapper]
      rfl
    · refine Or.inl ⟨rfl, ?_⟩
      simp only [receiveWithin, recvReq, ite_self, TCPConnection.recv, recvWrapper]
      rfl
    · refine Or.inr ⟨by simp only [List.head?_cons, ne_eq, Option.some.injEq, reduceCtorEq,
        not_false_eq_true], ?_⟩
      cases chunk with
      | nil =>
          refine Or.inl ⟨0, Int.le_refl 0, ?_⟩
          simp only [receiveWithin, recvReq, ite_self, TCPConnection.recv, recvWrapper,
            List.take_nil]
          rfl
      | cons c chunk =>
          rcases recvReq_chunk size (c :: chunk) rest [] timeout (List.cons_ne_nil _ _) hsize with
            ⟨hret, hlines⟩
          have hpos : (0 : Int) < (((c :: chunk).take size).length : Int) := by
            rw [List.length_take, List.length_cons]
            omega
          refine Or.inr ⟨c :: chunk, rest, _, rfl, hpos, ?_⟩
          simp only [receiveWithin, hret, hlines]
          rw [if_neg (by simp only [httpClientDisconnected]; omega),
            if_neg (by simp only [httpReadTimedout]; omega)]
  by_cases hzero : timeout = 0
  · rw [ReceiveFailed, if_pos hzero]
    exact hrecv (Or.inl hzero)
  · rw [ReceiveFailed, if_neg hzero]
    cases poll with
    | timedOut =>
        refine Or.inr ⟨by simp only [reduceCtorEq, false_and, or_self, not_false_eq_true],
          Or.inl ⟨httpReadTimedout, by decide, ?_⟩⟩
        simp only [receiveWithin, recvReq, if_neg hzero]
        rfl
    | failed =>
        refine Or.inl ⟨Or.inl rfl, ?_⟩
        simp only [receiveWithin, recvReq, if_neg hzero]
        rfl
    | ready =>
        simp only [reduceCtorEq, false_or, true_and]
        exact hrecv (Or.inr rfl)

variable (threshold : Int) (ndebug : Bool) (env : Env) (answers : Answers) (fuel : Nat)
  (errno : Errno) (timeout : Nat) (poll : Poll) (inbound : Inbound) (src : IpAddr)
  (scores : Scores)

/-- `process_request` is called only after a receive of some bytes, with lines
    of these bytes, and after any other nothing is sent and the scores stay as
    they are. -/
structure NotInvented : Prop where
  received : ∀ lines, (receiveWithin defaultBufferSize timeout poll inbound).2 = some lines →
    0 < (receiveWithin defaultBufferSize timeout poll inbound).1 ∧
      ∃ chunk rest, inbound = some chunk :: rest ∧ lines.flatten <+: chunk
  dropped : (receiveWithin defaultBufferSize timeout poll inbound).1 ≤ 0 →
    handleScored threshold ndebug env answers fuel errno timeout poll inbound src scores
      = .ok (some ⟨none, {}, scores⟩)

/-- No request is made up exactly when neither `poll` nor `recv` fails. -/
theorem no_request_invented_exact :
    NotInvented threshold ndebug env answers fuel errno timeout poll inbound src scores
      ↔ ¬ ReceiveFailed timeout poll inbound := by
  rcases receiveWithin_cases defaultBufferSize (by decide) timeout poll inbound with
    ⟨hfailed, hret⟩ | ⟨hfine, ⟨ret, hle, hret⟩ | ⟨chunk, rest, ret, hchunk, hpos, hret⟩⟩
  · -- −1 is neither of the two counts that are looked for.
    refine iff_of_false (fun h => ?_) (fun h => h hfailed)
    have hpos := (h.received [] (by rw [hret])).1
    rw [hret] at hpos
    exact absurd hpos (by decide)
  · refine iff_of_true ⟨fun lines hlines => ?_, fun _ => ?_⟩ hfine
    · rw [hret] at hlines
      exact absurd hlines (by simp only [reduceCtorEq, not_false_eq_true])
    · rw [handleScored, hret]
  · refine iff_of_true ⟨fun lines hlines => ?_, fun hle => ?_⟩ hfine
    · rw [hret] at hlines ⊢
      refine ⟨hpos, chunk, rest, hchunk, ?_⟩
      rcases (cutExactly_iff '\n' (chunk.take (defaultBufferSize - 1)) _).mpr rfl with
        ⟨_, tail, hsplit, _⟩
      have hcut : (completeLines '\n' (chunk.take (defaultBufferSize - 1))).flatten <+:
          chunk.take (defaultBufferSize - 1) := ⟨tail, hsplit.symm⟩
      rw [← Option.some.inj hlines]
      exact hcut.trans (List.take_prefix _ chunk)
    · rw [hret] at hle
      exact absurd hpos (Int.not_lt.mpr hle)

end Outcome

/-- A connection that is reset is answered and counted against the client. -/
theorem request_invented :
    ¬ ∀ threshold ndebug env answers fuel errno timeout poll inbound src scores,
      NotInvented threshold ndebug env answers fuel errno timeout poll inbound src scores := by
  intro hall
  have hreceived := (hall 0 true sampleEnv (fun _ => some 1) 1 0 0 .ready [none] Blacklist.knownAddr
    ⟨∅, []⟩).received [] rfl
  exact absurd hreceived.1 (by decide)

end HttpFileSharing
