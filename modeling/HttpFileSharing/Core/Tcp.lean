import HttpFileSharing.Core.FileSystem

/-!
# The TCP Connection

Receiving and sending over one connection. The inbound side is what the
successive `recv` calls return: a chunk of the byte stream each, an error, or
nothing more once the peer has closed. The outbound side is an oracle that
says how many bytes each system call accepts, with everything accepted so far
on the wire. The two send loops run on fuel, one unit for each turn.

`recv` reads into a buffer of fixed size that is filled with NULs first, so
the buffer it returns is always full length and only the count says how much
of it was received.

## Main definitions

* `Inbound`: What the `recv` calls return.
* `defaultBufferSize`: The size of the receive buffer.
* `recvWrapper`, `TCPConnection.recv`: One receive.
* `Answers`: How many bytes each `send` or `sendfile` call accepts.
* `StreamEvent`: What happens to a stream.
* `Outbound`, `Outbound.accept`: The wire, and one call.
* `sendLoop`, `sendWrapper`: Sending a buffer.
* `sendFileLoop`, `TCPConnection.sendFile`: Sending a file.
* `sendChangingLoop`, `TCPConnection.sendChanging`: The same while the file
  changes.
-/

namespace HttpFileSharing

/-- What the successive `recv` calls return: bytes, or `none` for an error.
    After the last one the peer has closed. -/
abbrev Inbound := List (Option Bytes)

/-- `DEFAULT_BUFFER_SIZE`. -/
def defaultBufferSize : Nat := 2048

/-- `_recv_wrapper` into `buffer`: the count, the buffer as written, and what
    is left to receive. The kernel hands over at most `buffer.length` bytes
    and keeps the rest of the chunk. -/
def recvWrapper (inbound : Inbound) (buffer : Bytes) : Int × Bytes × Inbound :=
  match inbound with
  | [] => (0, buffer, [])
  | none :: rest => (-1, buffer, rest)
  | some chunk :: rest =>
    -- The buffer keeps its padding behind what was received.
    let got := chunk.take buffer.length
    let left := chunk.drop buffer.length
    (got.length, got ++ buffer.drop got.length,
      if left = [] then rest else some left :: rest)

/-- `TCPConnection::recv` with a buffer of `size` bytes, cleared first. -/
def TCPConnection.recv (size : Nat) (inbound : Inbound) : Int × Bytes × Inbound :=
  recvWrapper inbound (List.replicate size '\x00')

/-- How many bytes each `send` or `sendfile` call would accept, or `none` for
    an error. -/
abbrev Answers := Nat → Option Nat

/-- What happens to a stream. -/
inductive StreamEvent where
  | fopen
  | fclose
  deriving DecidableEq, Repr

/-- What has been sent: the position and the size every call asked for, the
    bytes on the wire, and what happened to streams. -/
structure Outbound where
  asked : List (Nat × Nat) := []
  wire : Bytes := []
  streams : List StreamEvent := []
  deriving DecidableEq, Repr

/-- How many calls were made. -/
def Outbound.calls (out : Outbound) : Nat := out.asked.length

/-- One `send` or `sendfile` of the `count` bytes of `data` from position `pos`
    on: the count returned, or `none` for −1. At most what is there is
    accepted. -/
def Outbound.accept (out : Outbound) (answers : Answers) (data : Bytes) (pos count : Nat) :
    Option Nat × Outbound :=
  let offered := (data.drop pos).take count
  match answers out.calls with
  | none => (none, { out with asked := out.asked ++ [(pos, count)] })
  | some n => (some (offered.take n).length,
      { out with asked := out.asked ++ [(pos, count)], wire := out.wire ++ offered.take n })

/-- The loop of `_send_wrapper`. -/
def sendLoop (answers : Answers) (buffer : Bytes) :
    Nat → Outbound → Nat → Nat → Except Fault (Int × Outbound)
  | 0, _, _, _ => .error .running
  | fuel + 1, out, total, remaining =>
    if total < buffer.length then
      match out.accept answers buffer total remaining with
      | (none, out) => .ok (-1, out)
      | (some n, out) => sendLoop answers buffer fuel out (total + n) (remaining - n)
    else .ok (total, out)

/-- `_send_wrapper`, and with it `TCPConnection::send` of a buffer. -/
def sendWrapper (answers : Answers) (fuel : Nat) (out : Outbound) (buffer : Bytes) :
    Except Fault (Int × Outbound) :=
  sendLoop answers buffer fuel out 0 buffer.length

/-- One `sendfile` from offset `off` of an open stream: the count, the offset
    it leaves, and what has been sent. -/
def sendfile (answers : Answers) (stream : Stream) (out : Outbound) (off remaining : Nat) :
    Option Nat × Nat × Outbound :=
  match stream with
  | .regular content =>
    match out.accept answers content off remaining with
    | (none, out) => (none, off, out)
    | (some n, out) => (some n, off + n, out)
  | .special => (none, off, { out with asked := out.asked ++ [(off, remaining)] })

/-- The loop of `TCPConnection::send` for a file. The offset is set by the
    kernel and then set again. -/
def sendFileLoop (answers : Answers) (stream : Stream) (size : Nat) :
    Nat → Outbound → Nat → Nat → Nat → Except Fault (Int × Outbound)
  | 0, _, _, _, _ => .error .running
  | fuel + 1, out, off, total, remaining =>
    if total < size then
      match sendfile answers stream out off remaining with
      | (none, _, out) => .ok (-1, out)
      | (some n, _, out) =>
        sendFileLoop answers stream size fuel out (total + n) (total + n) (remaining - n)
    else .ok (total, out)

/-- `TCPConnection::send` for a file. On every way out the destructor of
    `FILE_RAII` closes the stream, also where none was opened. -/
def TCPConnection.sendFile (answers : Answers) (fuel : Nat) (out : Outbound)
    (opened : Option Stream) (size : Nat) : Except Fault (Int × Outbound) :=
  match opened with
  -- `get_fd` gives −1, and on the way out the destructor calls `fclose` on
  -- the null stream.
  | none => .error .nullStream
  | some stream =>
    let out := { out with streams := out.streams ++ [.fopen] }
    match sendFileLoop answers stream size fuel out 0 0 size with
    | .error e => .error e
    | .ok (ret, out) => .ok (ret, { out with streams := out.streams ++ [.fclose] })

/-- The loop of `TCPConnection::send` for a file that others may change while
    it is sent: `files i` is what the stream gives at call `i`. -/
def sendChangingLoop (answers : Answers) (files : Nat → Stream) (size : Nat) :
    Nat → Outbound → Nat → Nat → Nat → Except Fault (Int × Outbound)
  | 0, _, _, _, _ => .error .running
  | fuel + 1, out, off, total, remaining =>
    if total < size then
      match sendfile answers (files out.calls) out off remaining with
      | (none, _, out) => .ok (-1, out)
      -- Only −1 is looked for; a count of zero goes round again.
      | (some n, _, out) =>
        sendChangingLoop answers files size fuel out (total + n) (total + n) (remaining - n)
    else .ok (total, out)

/-- `TCPConnection::send` for a file that others may change while it is
    sent. -/
def TCPConnection.sendChanging (answers : Answers) (fuel : Nat) (out : Outbound)
    (opened : Option (Nat → Stream)) (size : Nat) : Except Fault (Int × Outbound) :=
  match opened with
  | none => .error .nullStream
  | some files =>
    let out := { out with streams := out.streams ++ [.fopen] }
    match sendChangingLoop answers files size fuel out 0 0 size with
    | .error e => .error e
    | .ok (ret, out) => .ok (ret, { out with streams := out.streams ++ [.fclose] })

end HttpFileSharing
