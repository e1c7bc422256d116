import SecureBoot.Edit

/-!
A stream of bytes with look-ahead. What comes next decides how it is read, so a stream can show
bytes without consuming them. Its source delivers the bytes in pieces, may ask for a read to be
repeated, and may fail; the stream repeats what has to be repeated and keeps what it looked at.
-/

namespace SecureBoot

/-- What a source does when it is read. -/
inductive Delivery
  | piece (bytes : Bytes)
  | interrupted
  | failure
  deriving DecidableEq, Repr

/-- What a source does when nothing is left to deliver: report its end, or fail at every read. -/
inductive SourceEnd
  | ended
  | failing
  deriving DecidableEq, Repr

/-- Where the bytes of a stream come from: what is still to be delivered, and what comes then. -/
structure Source where
  deliveries : List Delivery
  finish : SourceEnd
  deriving DecidableEq, Repr

/-- How a run of reads stopped. -/
inductive Stop
  | satisfied
  | exhausted
  | failed
  deriving DecidableEq, Repr

namespace Source

/-- The source that delivers the bytes at once and then ends. -/
def ofBytes (bytes : Bytes) : Source :=
  ⟨[.piece bytes], .ended⟩

/-- The pieces of a byte string of at most `chunk` bytes each, every read interrupted once. -/
def stutters (chunk : Nat) : Nat → Bytes → List Delivery
  | 0, _ => []
  | _ + 1, [] => []
  | count + 1, bytes =>
    .interrupted :: .piece (bytes.take chunk) :: stutters chunk count (bytes.drop chunk)

/-- A source that delivers at most `chunk` bytes at a time and interrupts before each delivery. If
`failAt` is given it delivers only that many bytes and then fails for good. -/
def stuttering (bytes : Bytes) (chunk failAt : Option Nat) : Source :=
  let delivered := match failAt with
    | some limit => bytes.take limit
    | none => bytes
  let finish := match failAt with
    | some limit => if limit ≤ bytes.length then .failing else .ended
    | none => .ended
  let pieces := match chunk with
    | some 0 => []
    | some chunk => stutters chunk delivered.length delivered
    | none => [.interrupted, .piece delivered]
  ⟨pieces, finish⟩

/-- The source that cannot be read at all. -/
def unreadable : Source :=
  ⟨[], .failing⟩

/-- The bytes that deliveries still hold. -/
def bytesOf : List Delivery → Bytes
  | [] => []
  | .piece bytes :: rest => bytes ++ bytesOf rest
  | .interrupted :: rest => bytesOf rest
  | .failure :: rest => bytesOf rest

/-- Read until `wanted` bytes have come, the source has ended or a read has failed: the bytes that
came, what is left to deliver, and why the reads stopped. -/
def draw (finish : SourceEnd) : Nat → List Delivery → Bytes × List Delivery × Stop
  | 0, deliveries => ([], deliveries, .satisfied)
  | _ + 1, [] =>
    match finish with
    | .ended => ([], [], .exhausted)
    | .failing => ([], [], .failed)
  | wanted + 1, .interrupted :: rest => draw finish (wanted + 1) rest
  | _ + 1, .failure :: rest => ([], rest, .failed)
  | wanted + 1, .piece bytes :: rest =>
    if wanted + 1 < bytes.length then
      (bytes.take (wanted + 1), .piece (bytes.drop (wanted + 1)) :: rest, .satisfied)
    else
      let (more, left, stop) := draw finish (wanted + 1 - bytes.length) rest
      (bytes ++ more, left, stop)

end Source

/-- A stream: its source, the bytes looked at but not consumed, whether the source has reported
its end, and the number of bytes consumed. -/
structure Stream where
  source : Source
  lookahead : Bytes
  exhausted : Bool
  position : Nat
  deriving DecidableEq, Repr

namespace Stream

/-- A stream at the start of a source. -/
def ofSource (source : Source) : Stream :=
  ⟨source, [], false, 0⟩

/-- A stream over bytes in memory. -/
def ofBytes (bytes : Bytes) : Stream :=
  ofSource (.ofBytes bytes)

/-- The bytes the stream has not consumed, whether a read can still reach them or not. -/
def unread (stream : Stream) : Bytes :=
  if stream.exhausted then stream.lookahead
  else stream.lookahead ++ Source.bytesOf stream.source.deliveries

/-- Read until `wanted` bytes are looked at or the source has ended. -/
def fill (wanted : Nat) : Edit Stream Unit := fun stream =>
  if stream.exhausted then .ok () stream
  else
    let missing := wanted - stream.lookahead.length
    let (bytes, left, stop) := stream.source.deliveries |> Source.draw stream.source.finish missing
    let filled := { stream with
      source := { stream.source with deliveries := left }
      lookahead := stream.lookahead ++ bytes }
    match stop with
    | .satisfied => .ok () filled
    | .exhausted => .ok () { filled with exhausted := true }
    | .failed => .error .inputOutput filled

/-- The next `count` bytes, fewer only at the end of the stream. -/
def peek (count : Nat) : Edit Stream Bytes := do
  fill count
  return (← get).lookahead.take count

/-- Consume the next `count` bytes, fewer only at the end of the stream. -/
def readUpTo (count : Nat) : Edit Stream Bytes := do
  fill count
  let stream ← get
  let bytes := stream.lookahead.take count
  set { stream with
    lookahead := stream.lookahead.drop count
    position := stream.position + bytes.length }
  return bytes

/-- Consume everything that is left. A failure of the source loses what was looked at. -/
def readToEnd : Edit Stream Bytes := fun stream =>
  let wanted := (Source.bytesOf stream.source.deliveries).length + 1
  let (bytes, left, stop) :=
    if stream.exhausted then ([], stream.source.deliveries, .exhausted)
    else stream.source.deliveries |> Source.draw stream.source.finish wanted
  let drained := { stream with
    source := { stream.source with deliveries := left }
    lookahead := [] }
  match stop with
  | .failed => .error .inputOutput drained
  | .satisfied | .exhausted =>
    let all := stream.lookahead ++ bytes
    .ok all { drained with exhausted := true, position := stream.position + all.length }

/-- Whether nothing is left to consume. -/
def isExhausted : Edit Stream Bool := do
  return (← peek 1).isEmpty

end Stream
end SecureBoot
