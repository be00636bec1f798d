import HttpFileSharing.Theory.Delivery

/-!
# Sending a File That Changes

A file is opened again by name after its size was taken, and others may change
it until the last byte is sent. A call at or past the end of the file as it is
by then sends nothing and is no error, so the loop goes round again. It ends
only if the file is, at later and later calls, longer than what has been sent.

The slowest send is the one that takes a byte at a time, and it is the one that
decides. If it comes to the end then so does every other, since a send that is
ahead of it stays ahead; and if it does not, the worker that runs it never
returns.

The stream belongs to an object whose destructor closes it on every way out,
including the one on which it was never opened.

## Main definitions

* `Progress`: No call takes nothing of something.
* `LongEnough`: The file is long enough at enough calls.
* `Disciplined`: Every opened stream is closed once, and no other.

## Theorems

* `sendFileLoop_eq_changing`, `sendFile_eq_changing`: A file that does not
  change.
* `accept_pos`: A call that makes progress.
* `sendChangingLoop_ends`: A loop over a file that is long enough ends.
* `longEnough_of_ends`: The slowest loop ends only over such a file.
* `file_send_ends_exact`: The exact condition on the file.
* `longEnough_of_size`: A file that keeps its size is long enough.
* `file_send_never_ends`: A file that was emptied.
* `sendChangingLoop_streams`: The loop opens and closes nothing.
* `stream_discipline_exact`: The exact condition on opening.
* `stream_discipline_fails`: A file that cannot be opened.
-/

namespace HttpFileSharing

/-- Sending a file that does not change is sending one that could. -/
theorem sendFileLoop_eq_changing (answers : Answers) (stream : Stream) (size fuel : Nat)
    (out : Outbound) (off total remaining : Nat) :
    sendFileLoop answers stream size fuel out off total remaining
      = sendChangingLoop answers (fun _ => stream) size fuel out off total remaining := by
  induction fuel generalizing out off total remaining with
  | zero => rfl
  | succ fuel ih =>
      rw [sendFileLoop, sendChangingLoop]
      simp only [ih]

theorem sendFile_eq_changing (answers : Answers) (fuel : Nat) (out : Outbound)
    (opened : Option Stream) (size : Nat) :
    TCPConnection.sendFile answers fuel out opened size
      = TCPConnection.sendChanging answers fuel out (opened.map (fun stream _ => stream)) size := by
  cases opened with
  | none => rfl
  | some stream =>
      simp only [TCPConnection.sendFile, TCPConnection.sendChanging, Option.map_some,
        sendFileLoop_eq_changing]

/-- No call that is offered something takes nothing: it takes at least a byte
    or fails. -/
def Progress (answers : Answers) : Prop := ∀ i, answers i ≠ some 0

/-- There are `size` calls, each after the one before it, at which a file of
    length `len i` at call `i` is longer than `0`, `1`, up to `size - 1`
    bytes. -/
def LongEnough (size : Nat) (len : Nat → Nat) : Prop :=
  ∃ call : Nat → Nat, (∀ k, k + 1 < size → call k < call (k + 1)) ∧
    ∀ k, k < size → k < len (call k)

theorem accept_pos (answers : Answers) (hprogress : Progress answers) (out out' : Outbound)
    (data : Bytes) (pos count : Nat) (hne : (data.drop pos).take count ≠ []) (n : Nat)
    (h : out.accept answers data pos count = (some n, out')) : 0 < n := by
  have hpos := List.length_pos_iff.mpr hne
  rw [Outbound.accept] at h
  generalize (data.drop pos).take count = offered at h hpos
  split at h
  · exact absurd (congrArg Prod.fst h) (by simp only [reduceCtorEq, not_false_eq_true])
  · rename_i k hk
    have hzero : k ≠ 0 := fun hzero => hprogress out.calls (hzero ▸ hk)
    rw [← Option.some.inj (congrArg Prod.fst h), List.length_take]
    omega

/-- Calls that come one after the other are in order. -/
theorem lt_of_increasing (size : Nat) (call : Nat → Nat)
    (hnext : ∀ k, k + 1 < size → call k < call (k + 1)) (j k : Nat) (hjk : j < k)
    (hk : k < size) : call j < call k := by
  induction k with
  | zero => exact absurd hjk (Nat.not_lt_zero j)
  | succ k ih =>
      have hstep := hnext k hk
      rcases Nat.lt_succ_iff_lt_or_eq.mp hjk with hlt | rfl
      · exact Nat.lt_trans (ih hlt (Nat.lt_of_succ_lt hk)) hstep
      · exact hstep

/-- A loop over a file that is long enough ends. At each call, the position is
    past every byte whose call has gone by. -/
theorem sendChangingLoop_ends (answers : Answers) (hprogress : Progress answers)
    (files : Nat → Bytes) (size : Nat) (call : Nat → Nat)
    (hnext : ∀ k, k + 1 < size → call k < call (k + 1))
    (hlong : ∀ k, k < size → k < (files (call k)).length) (fuel : Nat) (out : Outbound)
    (total remaining : Nat) (hrest : total + remaining = size)
    (hpast : ∀ k, k < size → call k < out.calls → k < total)
    (hfuel : ∀ k, k < size → call k + 1 < fuel + out.calls) (hpos : 0 < fuel) :
    ∃ result, sendChangingLoop answers (fun i => .regular (files i)) size fuel out total total
      remaining = .ok result := by
  induction fuel generalizing out total remaining with
  | zero => exact absurd hpos (Nat.lt_irrefl 0)
  | succ fuel ih =>
      rw [sendChangingLoop]
      by_cases hmore : total < size
      · rw [if_pos hmore]
        simp only [sendfile]
        cases haccept : out.accept answers (files out.calls) total remaining with
        | mk count next =>
            cases count with
            | none => exact ⟨_, rfl⟩
            | some n =>
                rcases accept_some answers out next _ _ _ n haccept with ⟨hn, rfl⟩
                rw [List.length_take] at hn
                refine ih _ (total + n) (remaining - n) (by omega) (fun k hk hcall => ?_)
                  (fun k hk => ?_) ?_
                · rw [calls_next] at hcall
                  have hle : call k ≤ out.calls := Nat.le_of_lt_succ hcall
                  rcases Nat.lt_or_eq_of_le hle with hlt | heq
                  · exact Nat.lt_of_lt_of_le (hpast k hk hlt) (Nat.le_add_right _ _)
                  · -- The call of byte `k` has just been made, at or past that byte.
                    have hreached : k ≤ total := by
                      by_contra hbeyond
                      have horder := lt_of_increasing size call hnext total k (by omega) hk
                      exact Nat.lt_irrefl _ (hpast total hmore (heq ▸ horder))
                    rcases Nat.lt_or_eq_of_le hreached with hlt | rfl
                    · exact Nat.lt_of_lt_of_le hlt (Nat.le_add_right _ _)
                    · -- At the byte itself the file goes on, so the call takes some.
                      have hthere := hlong k hk
                      rw [heq] at hthere
                      have hne : ((files out.calls).drop k).take remaining ≠ [] := by
                        refine List.ne_nil_of_length_pos ?_
                        rw [List.length_take, List.length_drop]
                        omega
                      have hsome := accept_pos answers hprogress out _ _ _ _ hne n haccept
                      omega
                · have hbound := hfuel k hk
                  rw [calls_next]
                  omega
                · -- The call of the last byte is still to come.
                  have hlast := hfuel (size - 1) (by omega)
                  by_contra hzero
                  have hgone := hpast (size - 1) (by omega) (by omega)
                  omega
      · rw [if_neg hmore]
        exact ⟨_, rfl⟩

/-- The loop that takes a byte at a time ends only over a file that is long
    enough: its own calls are the ones asked for. -/
theorem longEnough_of_ends (files : Nat → Bytes) (size : Nat) (fuel : Nat) (out : Outbound)
    (total remaining : Nat) (hrest : total + remaining = size) (result : Int × Outbound)
    (h : sendChangingLoop (fun _ => some 1) (fun i => .regular (files i)) size fuel out total
      total remaining = .ok result) :
    ∃ call : Nat → Nat, (∀ k, total ≤ k → k + 1 < size → call k < call (k + 1)) ∧
      ∀ k, total ≤ k → k < size → out.calls ≤ call k ∧ k < (files (call k)).length := by
  induction fuel generalizing out total remaining with
  | zero => exact absurd h (by simp only [sendChangingLoop, reduceCtorEq, not_false_eq_true])
  | succ fuel ih =>
      rw [sendChangingLoop] at h
      by_cases hmore : total < size
      · rw [if_pos hmore] at h
        simp only [sendfile, Outbound.accept] at h
        by_cases hthere : total < (files out.calls).length
        · -- The call takes one byte, and is the call of that byte.
          have hone : ((((files out.calls).drop total).take remaining).take 1).length = 1 := by
            simp only [List.length_take, List.length_drop]
            omega
          rw [hone] at h
          rcases ih _ (total + 1) (remaining - 1) (by omega) h with ⟨call, hnext, hlong⟩
          rw [calls_next] at hlong
          refine ⟨Function.update call total out.calls, fun k hk hsize => ?_,
            fun k hk hsize => ?_⟩
          · rw [Function.update_of_ne (by omega : k + 1 ≠ total)]
            by_cases hkt : k = total
            · rw [hkt, Function.update_self]
              exact (hlong (total + 1) (Nat.le_refl _) (hkt ▸ hsize)).1
            · rw [Function.update_of_ne hkt]
              exact hnext k (by omega) hsize
          · by_cases hkt : k = total
            · rw [hkt, Function.update_self]
              exact ⟨Nat.le_refl _, hthere⟩
            · rw [Function.update_of_ne hkt]
              rcases hlong k (by omega) hsize with ⟨hafter, hk'⟩
              exact ⟨Nat.le_of_succ_le hafter, hk'⟩
        · -- The call takes nothing, and the loop goes round again.
          have hnone : ((((files out.calls).drop total).take remaining).take 1).length = 0 := by
            simp only [List.length_take, List.length_drop]
            omega
          rw [hnone] at h
          rcases ih _ (total + 0) (remaining - 0) (by omega) h with ⟨call, hnext, hlong⟩
          rw [calls_next] at hlong
          refine ⟨call, hnext, fun k hk hsize => ?_⟩
          rcases hlong k hk hsize with ⟨hafter, hk'⟩
          exact ⟨Nat.le_of_succ_le hafter, hk'⟩
      · exact ⟨fun _ => 0, fun k hk hsize => absurd hsize (by omega),
          fun k hk hsize => absurd hsize (by omega)⟩

/-- The send of an opened file returns, whatever its calls take, exactly when
    the file is long enough at enough of them. -/
theorem file_send_ends_exact (files : Nat → Bytes) (size : Nat) (out : Outbound) :
    (∀ answers, Progress answers → ∃ fuel result,
        TCPConnection.sendChanging answers fuel out (some (fun i => .regular (files i))) size
          = .ok result)
      ↔ LongEnough size (fun i => (files (out.calls + i)).length) := by
  constructor
  · intro hall
    rcases hall (fun _ => some 1) (fun i h => absurd (Option.some.inj h) (by decide)) with
      ⟨fuel, result, h⟩
    simp only [TCPConnection.sendChanging] at h
    split at h
    · exact absurd h (by simp only [reduceCtorEq, not_false_eq_true])
    · rename_i ret sent hloop
      rcases longEnough_of_ends files size fuel _ 0 size (Nat.zero_add _) _ hloop with
        ⟨call, hnext, hlong⟩
      rw [calls_same] at hlong
      -- The calls are counted from the first one of this send.
      refine ⟨fun k => call k - out.calls, fun k hk => ?_, fun k hk => ?_⟩
      · have hstart := (hlong k (Nat.zero_le _) (by omega)).1
        have hstep := hnext k (Nat.zero_le _) hk
        simp only
        omega
      · rcases hlong k (Nat.zero_le _) hk with ⟨hstart, hk'⟩
        simp only
        rw [Nat.add_sub_cancel' hstart]
        exact hk'
  · rintro ⟨call, hnext, hlong⟩ answers hprogress
    have horder : ∀ k, k < size → call k ≤ call (size - 1) := fun k hk => by
      rcases Nat.lt_or_eq_of_le (Nat.le_sub_one_of_lt hk) with hlt | heq
      · exact Nat.le_of_lt (lt_of_increasing size call hnext k (size - 1) hlt (by omega))
      · exact Nat.le_of_eq (congrArg call heq)
    have hstart := calls_same out out.wire (out.streams ++ [.fopen])
    rcases sendChangingLoop_ends answers hprogress files size (fun k => out.calls + call k)
      (fun k hk => Nat.add_lt_add_left (hnext k hk) _) hlong (call (size - 1) + 2)
      { out with streams := out.streams ++ [.fopen] } 0 size (Nat.zero_add _)
      (fun k _ hk => absurd hk (by omega))
      (fun k hk => by have hle := horder k hk; omega) (by omega) with
      ⟨⟨ret, sent⟩, hloop⟩
    refine ⟨call (size - 1) + 2, (ret, { sent with streams := sent.streams ++ [.fclose] }), ?_⟩
    simp only [TCPConnection.sendChanging, hloop]

/-- A file that keeps the size that was taken is long enough. -/
theorem longEnough_of_size (size : Nat) (len : Nat → Nat) (h : ∀ i, size ≤ len i) :
    LongEnough size len :=
  ⟨id, fun k _ => Nat.lt_succ_self k, fun k hk => Nat.lt_of_lt_of_le hk (h k)⟩

/-- A file of one byte that was emptied after its size was taken is sent
    forever. -/
theorem file_send_never_ends :
    ¬ ∀ (files : Nat → Bytes) (size : Nat) (out : Outbound) (answers : Answers),
      Progress answers → ∃ fuel result,
        TCPConnection.sendChanging answers fuel out (some (fun i => .regular (files i))) size
          = .ok result := by
  intro hall
  rcases hall (fun _ => []) 1 {} (fun _ => some 1)
    (fun i h => absurd (Option.some.inj h) (by decide)) with ⟨fuel, result, h⟩
  simp only [TCPConnection.sendChanging] at h
  split at h
  · exact absurd h (by simp only [reduceCtorEq, not_false_eq_true])
  · rename_i ret sent hloop
    -- No call is ever longer than nothing.
    rcases longEnough_of_ends (fun _ => []) 1 fuel _ 0 1 rfl _ hloop with ⟨call, _, hlong⟩
    exact absurd (hlong 0 (Nat.le_refl 0) Nat.zero_lt_one).2 (Nat.not_lt_zero 0)

section Streams

variable (answers : Answers) (fuel : Nat) (out : Outbound)

theorem sendfile_streams (stream : Stream) (off remaining : Nat) :
    (sendfile answers stream out off remaining).2.2.streams = out.streams := by
  cases stream with
  | special => rfl
  | regular content =>
      simp only [sendfile]
      split
      · rename_i next haccept
        rw [accept_none answers out next _ _ _ haccept]
      · rename_i n next haccept
        rw [(accept_some answers out next _ _ _ n haccept).2]

/-- The loop opens and closes nothing, and ends without a result only by not
    ending. -/
theorem sendChangingLoop_streams (files : Nat → Stream) (size : Nat) (off total remaining : Nat) :
    match sendChangingLoop answers files size fuel out off total remaining with
    | .ok result => result.2.streams = out.streams
    | .error e => e = .running := by
  induction fuel generalizing out off total remaining with
  | zero => rfl
  | succ fuel ih =>
      rw [sendChangingLoop]
      by_cases hmore : total < size
      · rw [if_pos hmore]
        have hcall := sendfile_streams answers out (files out.calls) off remaining
        cases hsend : sendfile answers (files out.calls) out off remaining with
        | mk count rest =>
            rcases rest with ⟨off', next⟩
            rw [hsend] at hcall
            cases count with
            | none => exact hcall
            | some n =>
                have hrest := ih next (total + n) (total + n) (remaining - n)
                simp only at hcall ⊢
                rw [hcall] at hrest
                exact hrest
      · rw [if_neg hmore]

/-- On every way out, the stream that was opened has been closed once and no
    null stream has. -/
def Disciplined (opened : Option (Nat → Stream)) (size : Nat) : Prop :=
  TCPConnection.sendChanging answers fuel out opened size ≠ .error .nullStream ∧
    ∀ ret out', TCPConnection.sendChanging answers fuel out opened size = .ok (ret, out') →
      out'.streams = out.streams ++ [.fopen, .fclose]

/-- Every way out of a send closes the stream once exactly when the file could
    be opened. -/
theorem stream_discipline_exact (opened : Option (Nat → Stream)) (size : Nat) :
    Disciplined answers fuel out opened size ↔ opened.isSome = true := by
  cases opened with
  | none => exact iff_of_false (fun h => h.1 rfl) (by decide)
  | some files =>
      refine iff_of_true ?_ rfl
      have hloop := sendChangingLoop_streams answers fuel
        { out with streams := out.streams ++ [.fopen] } files size 0 0 size
      simp only [Disciplined, TCPConnection.sendChanging]
      cases hsend : sendChangingLoop answers files size fuel
        { out with streams := out.streams ++ [.fopen] } 0 0 size with
      | error e =>
          rw [hsend] at hloop
          simp only at hloop
          rw [hloop]
          exact ⟨by decide, fun ret out' h => absurd h (by simp only [reduceCtorEq,
            not_false_eq_true])⟩
      | ok result =>
          rw [hsend] at hloop
          simp only at hloop
          refine ⟨by simp only [ne_eq, reduceCtorEq, not_false_eq_true], fun ret out' h => ?_⟩
          rw [Except.ok.injEq, Prod.mk.injEq] at h
          rw [← h.2, hloop, List.append_assoc]
          rfl

end Streams

/-- A server in a directory with files that may not be read. -/
def lockedEnv : Env where
  __ := sampleEnv
  fs := FileSystem.uniform twoNames 1 (.file false ['a', 'b']) rfl

/-- A file that may not be read is found by both look-ups and cannot be opened,
    and the stream that was not opened is closed. -/
theorem stream_discipline_fails :
    ¬ ∀ (env : Env) (uri : Bytes) (node : Node) (answers : Answers) (fuel : Nat) (out : Outbound),
      (checkIfFile env 0 uri).1 = true →
      env.fs.stat env.cwd (cleanFilename (uri.drop 1)) = .ok node →
      Disciplined answers fuel out
        ((env.fs.fopen env.cwd (cleanFilename (uri.drop 1))).map (fun stream _ => stream))
        node.size := by
  intro hall
  have hdisciplined := hall lockedEnv "/x".toList (.file false ['a', 'b']) (fun _ => none) 1 {}
    (by decide) (by decide)
  have hopen : lockedEnv.fs.fopen lockedEnv.cwd (cleanFilename ("/x".toList.drop 1)) = none := by
    decide
  rw [hopen] at hdisciplined
  exact hdisciplined.1 rfl

end HttpFileSharing
