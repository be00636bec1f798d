import HttpFileSharing.Core.Main
import HttpFileSharing.Core.Server

/-!
# Visits

The server over its whole life, one connection after the other. A client comes
with an address, four bytes that `get_src_addr` turns into text for everything
else: the look-up in the scores, the pages, the database. Then `server_loop`
drops the connection or a worker handles it, and the score that is left decides
about the next one of that client.

The handler of one visit is that of `Core.Server`, and its update of the score
that of `Core.StatsDb`, in the database. `errno` is what the thread has left of
anything it did before, and nothing is known about it. A visit is over before the next
one comes, so no two handlers are between their look-up and their update at a time;
how the threads share the pool is the matter of `Core.ServerLoop` and
`Core.Connections`. Only a handler that is still sending after so many turns of its
loops is taken to go on for ever. It does not come to its update and keeps its worker,
and when all are kept a connection stays in the queue.

The tree of files is the same for all visits. A process that was killed between two of
them is started again by the same command, on the databases the one before left.

## Main definitions

* `InAddr`, `InAddr.dotted`, `inetNtop`, `TCPConnection.getSrcAddr`: The
  address of a client and its text.
* `Visit`, `Outcome`: What a client does, and what it gets.
* `Serving.visit`, `Serving.visits`: A server that is up.
* `sessions`: A server that is killed and started again.
-/

namespace HttpFileSharing

/-- `sockaddr_in.sin_addr`, in network order. -/
structure InAddr where
  b0 : UInt8
  b1 : UInt8
  b2 : UInt8
  b3 : UInt8
  deriving DecidableEq, Repr

/-- The text of an address: `%u.%u.%u.%u`. -/
def InAddr.dotted (addr : InAddr) : Bytes :=
  Nat.toDigits 10 addr.b0.toNat ++ '.' :: (Nat.toDigits 10 addr.b1.toNat ++ '.' ::
    (Nat.toDigits 10 addr.b2.toNat ++ '.' :: Nat.toDigits 10 addr.b3.toNat))

/-- `inet_ntop` for `AF_INET` into a buffer of `size` bytes, or `none` where the
    text and its terminator do not fit. -/
def inetNtop (addr : InAddr) (size : Nat) : Option Bytes :=
  if addr.dotted.length < size then some addr.dotted else none

/-- `INET_ADDRSTRLEN`. -/
def inetAddrstrlen : Nat := 16

/-- `TCPConnection::get_src_addr`: what is in the buffer is not defined where
    `inet_ntop` has not written to it. -/
def TCPConnection.getSrcAddr (addr : InAddr) : Except Stop Bytes :=
  match inetNtop addr inetAddrstrlen with
  | some text => .ok text
  | none => .error .undefined

/-- What a client does: where it comes from, what it sends, and what the system
    calls of its handler return. -/
structure Visit where
  src : InAddr
  inbound : Inbound
  answers : Answers
  errno : Errno

/-- What a client gets: nothing as it was dropped, no worker is left or its handler
    turned back, a response, or one that is still being sent. -/
inductive Outcome where
  | dropped
  | waiting
  | refused
  | answered (out : Outbound)
  | hanging
  deriving DecidableEq, Repr

/-- What an exception, an assertion or an undefined operation in a handler does to
    the process, or `none` where the handler is still running. -/
def Fault.stops : Fault → Option Stop
  | .outOfRange | .nullStream => some .undefined
  | .assertion => some .exited
  | .running => none

namespace Serving

variable {sq : Sqlite}

/-- One connection from `accept` to the end of its handler. -/
def visit (ndebug : Bool) (fuel : Nat) (s : Serving sq) (v : Visit) :
    Except Stop (Outcome × Serving sq) :=
  match TCPConnection.getSrcAddr v.src with
  | .error e => .error e
  | .ok text =>
    let src := StatsDb.ipAddrOf text
    if isIpaddrBlacklisted s.blacklistThreshold s.statsList src = true then .ok (.dropped, s)
    else if s.idle = 0 then .ok (.waiting, s)
    else match handleConnection ndebug s.env v.answers fuel v.errno v.inbound src.text with
      | .error fault => match fault.stops with
        | some e => .error e
        | none => .ok (.hanging, { s with idle := s.idle - 1 })
      | .ok none => .ok (.refused, s)
      | .ok (some p) => match s.updateIpAddrStats src p.goodRequest with
        | .error e => .error e
        | .ok (_, s') => .ok (.answered p.out, s')

/-- One connection after the other, each outcome with the address it is for. -/
def visits (ndebug : Bool) (fuel : Nat) (s : Serving sq) :
    List Visit → Except Stop (List (InAddr × Outcome) × Serving sq)
  | [] => .ok ([], s)
  | v :: vs => match s.visit ndebug fuel v with
    | .error e => .error e
    | .ok (o, s') => match visits ndebug fuel s' vs with
      | .error e => .error e
      | .ok (os, s'') => .ok ((v.src, o) :: os, s'')

end Serving

/-- A server started by one command for every session, on what the one before left. -/
def sessions {sq : Sqlite} (ndebug : Bool) (fuel : Nat)
    (start : sq.World → Except Stop (Launched sq)) (w : sq.World) :
    List (List Visit) → Except Stop (List (InAddr × Outcome) × sq.World)
  | [] => .ok ([], w)
  | vs :: rest => match start w with
    | .error e => .error e
    | .ok l => match l.serving.visits ndebug fuel vs with
      | .error e => .error e
      | .ok (os, s) => match sessions ndebug fuel start s.world rest with
        | .error e => .error e
        | .ok (os', w') => .ok (os ++ os', w')

end HttpFileSharing
