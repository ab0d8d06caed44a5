import Mathlib.Algebra.GroupWithZero.Nat
import OnceBuild.Events.Ring
import OnceBuild.Lib.Utf8

/-!
# The event session of a run

Every event gets the next number of the run.  The session holds the events that the server has not
acknowledged and the numbers of those it had to drop, makes batches of them, and moves on when the
server acknowledges a number.
-/

namespace OnceBuild.Events

open Lib

structure SessionLimits where
  ordinaryCapacity : Nat
  maxEventsPerBatch : Nat
  maxEventBytes : Nat
  maxBatchBytes : Nat
  maxLogChunkBytes : Nat
  maxUnackedBytes : Nat
  deriving DecidableEq

inductive LossReason where
  | oversizedEvent
  | bufferOverflow
  | bufferByteLimit
  deriving DecidableEq

def LossReason.text : LossReason → Text
  | .oversizedEvent => "oversized_event".toList
  | .bufferOverflow => "buffer_overflow".toList
  | .bufferByteLimit => "buffer_byte_limit".toList

structure EventSession (B : Type) where
  runId : Text
  nextSeq : Nat
  /-- The next number that the server expects, as far as it has said. -/
  serverExpectedNextSeq : Nat
  ring : RingBuffer B
  started : Option (RunEvent B)
  loss : LossIntervals LossReason
  limits : SessionLimits
  finalizedLocally : Bool
  batchCounter : Nat
  producerDroppedEvents : Nat
  producerLossDirty : Bool
  lastSentProducerLoss : Nat
  logOffsets : List ((Text × Int) × Nat)

variable {B : Type} (wire : Wire B)

def Payload.isRunStarted : Payload B → Bool
  | .runStarted _ => true
  | _ => false

def Payload.isRunCompleted : Payload B → Bool
  | .runCompleted _ => true
  | _ => false

namespace EventSession

def new (runId : Text) (limits : SessionLimits) : EventSession B where
  runId := runId
  nextSeq := 1
  serverExpectedNextSeq := 1
  ring := .withByteCapacity limits.ordinaryCapacity limits.maxUnackedBytes
  started := none
  loss := .new
  limits := limits
  finalizedLocally := false
  batchCounter := 0
  producerDroppedEvents := 0
  producerLossDirty := false
  lastSentProducerLoss := 0
  logOffsets := []

variable (s : EventSession B)

def recordProducerLoss (count : Nat) : EventSession B :=
  { s with
    producerDroppedEvents := min (s.producerDroppedEvents + count) u64Max
    producerLossDirty := true }

/-! ## Pushing events -/

/-- `classify` and `fit_action_presentation`. -/
def present (limits : SessionLimits) (event : RunEvent B) : RunEvent B :=
  match event.payload with
  | .actionCompleted body =>
    { event with payload := .actionCompleted (wire.fitAction limits.maxEventBytes event body) }
  | _ => event

/-- Where a new event goes. -/
inductive Placement (B : Type) where
  | start (event : RunEvent B)
  | oversized
  | queue (event : RunEvent B)

def placement (limits : SessionLimits) (event : RunEvent B) : Placement B :=
  if event.seq = 1 ∧ event.payload.isRunStarted = true then .start event
  else if limits.maxEventBytes < wire.encodedLen (present wire limits event) then .oversized
  else .queue (present wire limits event)

def lose (first last : Nat) (reason : LossReason) : Option (EventSession B) := do
  let loss ← s.loss.record first last reason
  some { s with loss := loss }

/-- Queue an event, and record what is dropped for it. -/
def enqueue (event : PendingEvent B) : Option (EventSession B) := do
  let (outcome, ring) ← s.ring.pushOrdinary wire event
  match outcome with
  | .accepted => some { s with ring := ring }
  | .overflowDropped first last => lose { s with ring := ring } first last .bufferOverflow
  | .oversizedDropped seq => lose { s with ring := ring } seq seq .bufferByteLimit

def place (seq : Nat) : Placement B → Option (EventSession B)
  | .start event => some { s with started := some event }
  | .oversized => lose s seq seq .oversizedEvent
  | .queue event => enqueue wire s ⟨seq, event⟩

def pushEvent (payload : Payload B) (epochMs monoNs : Int) : Option (Nat × EventSession B) :=
  if s.finalizedLocally then some (s.nextSeq - 1, s)
  else if payload.isRunCompleted then none  -- use push_terminal for RunCompleted
  else if u64Max ≤ s.nextSeq then none  -- the number overflows
  else do
    let s' ← place wire { s with nextSeq := s.nextSeq + 1 } s.nextSeq
      (placement wire s.limits ⟨s.nextSeq, epochMs, monoNs, payload⟩)
    some (s.nextSeq, s')

/-- `slice::chunks`; each chunk takes something, so the length bounds their number. -/
def chunksUpTo (size : Nat) : Nat → List UInt8 → List (List UInt8)
  | 0, _ => []
  | fuel + 1, bytes =>
    if bytes.isEmpty then [] else bytes.take size :: chunksUpTo size fuel (bytes.drop size)

def chunks (size : Nat) (bytes : List UInt8) : List (List UInt8) :=
  chunksUpTo size bytes.length bytes

def fragments (limits : SessionLimits) (chunk : LogChunk) : List (Payload B) :=
  let size := max limits.maxLogChunkBytes 1
  (chunks size chunk.bytes).zipIdx.map fun part =>
    .logChunk
      { chunk with
        offset := min (chunk.offset + min (part.2 * size) i64Max) i64Max
        bytes := part.1 }

def pushAll (epochMs monoNs : Int) :
    Nat → EventSession B → List (Payload B) → Option (Nat × EventSession B)
  | last, s, [] => some (last, s)
  | _, s, payload :: rest => do
      let (seq, s') ← pushEvent wire s payload epochMs monoNs
      pushAll epochMs monoNs seq s' rest

/-- The offset of a chunk in its stream, and the offset of the next one. -/
def takeOffset (chunk : LogChunk) : LogChunk × EventSession B :=
  let key := (chunk.scope, chunk.stream)
  let offset := (s.logOffsets.lookup key).getD 0
  let next := min (offset + min chunk.bytes.length i64Max) i64Max
  ({ chunk with offset := offset },
    { s with logOffsets := (key, next) :: s.logOffsets.filter fun e => decide (e.1 ≠ key) })

/-- The payloads that an ordinary push comes to, and the session with the offsets counted. -/
def unfold : Payload B → List (Payload B) × EventSession B
  | .logChunk chunk =>
    if s.finalizedLocally then ([], s)
    else (fragments s.limits (s.takeOffset chunk).1, (s.takeOffset chunk).2)
  | payload => ([payload], s)

def pushOrdinary (payload : Payload B) (epochMs monoNs : Int) : Option (Nat × EventSession B) :=
  pushAll wire epochMs monoNs (s.nextSeq - 1) (s.unfold payload).2 (s.unfold payload).1

/-- `push_terminal`, which takes two numbers. -/
def pushTerminal (result : B) (epochMs monoNs : Int) : Option (Nat × EventSession B) :=
  if s.finalizedLocally then some (s.nextSeq - 1, s)
  else if u64Max < s.nextSeq + 2 then none  -- the number overflows
  else
    let finalizing := s.nextSeq
    let seq := s.nextSeq + 1
    let ring := (s.ring.placeFinalizing
      ⟨finalizing, ⟨finalizing, epochMs, monoNs, .runFinalizing 0⟩⟩).placeTerminal
        ⟨seq, ⟨seq, epochMs, monoNs, .runCompleted result⟩⟩
    some (seq, { s with nextSeq := s.nextSeq + 2, finalizedLocally := true, ring := ring })

end EventSession

/-! ## Batches -/

abbrev GapAdvance := LossInterval LossReason

structure RunEventBatch (B : Type) where
  runId : Text
  batchId : Text
  gapAdvances : List GapAdvance
  seqFrom : Nat
  events : List (RunEvent B)
  producerDroppedEvents : Nat

def varintLen (n : Nat) : Nat :=
  1 + ([7, 14, 21, 28, 35, 42, 49, 56, 63].filter fun bits => decide (2 ^ bits ≤ n)).length

/-- The length of a `uint64` field, which is left out if it is zero. -/
def uint64Len (n : Nat) : Nat := if n = 0 then 0 else 1 + varintLen n

def fieldLen (length : Nat) : Nat := 1 + varintLen length + length

def stringLen (text : Text) : Nat := if text = [] then 0 else fieldLen (utf8Encode text).length

def gapLen (gap : GapAdvance) : Nat :=
  uint64Len gap.first + uint64Len gap.last + stringLen gap.reason.text

def repeatedLen (lengths : List Nat) : Nat := (lengths.map fieldLen).foldr (· + ·) 0

def RunEventBatch.encodedLen (batch : RunEventBatch B) : Nat :=
  stringLen batch.runId + stringLen batch.batchId + repeatedLen (batch.gapAdvances.map gapLen) +
    uint64Len batch.seqFrom + repeatedLen (batch.events.map wire.encodedLen) +
    uint64Len batch.producerDroppedEvents

def takeConsecutive : Option Nat → List (PendingEvent B) → List (RunEvent B)
  | _, [] => []
  | previous, pending :: rest =>
    if previous.any fun n => decide (n + 1 ≠ pending.seq) then []
    else pending.event :: takeConsecutive (some pending.event.seq) rest

/-- Add items as long as the batch stays within the limit. -/
def fill {α : Type} (limit : Nat) (add : RunEventBatch B → α → RunEventBatch B) :
    RunEventBatch B → List α → RunEventBatch B
  | batch, [] => batch
  | batch, item :: rest =>
    if limit < (add batch item).encodedLen wire then batch else fill limit add (add batch item) rest

def RunEventBatch.addGap (batch : RunEventBatch B) (gap : GapAdvance) : RunEventBatch B :=
  { batch with gapAdvances := batch.gapAdvances ++ [gap] }

def RunEventBatch.addEvent (batch : RunEventBatch B) (event : RunEvent B) : RunEventBatch B :=
  { batch with events := batch.events ++ [event] }

namespace EventSession

variable (s : EventSession B)

def batchId (counter : Nat) : Text := s.runId ++ "-b".toList ++ Nat.toDigits 10 counter

def counted : EventSession B :=
  { s with
    batchCounter := s.batchCounter + 1
    lastSentProducerLoss := s.producerDroppedEvents }

def snapshot : List (PendingEvent B) := s.ring.snapshotUpTo (max s.limits.maxEventsPerBatch 1)

def firstSeq : Nat := (s.snapshot.head?.map PendingEvent.seq).getD s.nextSeq

def gaps : List GapAdvance := s.loss.snapshotBefore s.firstSeq

def header (seqFrom : Nat) : RunEventBatch B :=
  ⟨s.runId, s.batchId (s.batchCounter + 1), [], seqFrom, [], s.producerDroppedEvents⟩

/-- The number that a batch begins with if not all gaps are in it. -/
def resumeAt (sent : List GapAdvance) : Nat :=
  (sent.getLast?.map fun gap => gap.last + 1).getD s.serverExpectedNextSeq

def composeBatch : RunEventBatch B :=
  let events := takeConsecutive none (s.snapshot.take (max s.limits.maxEventsPerBatch 1))
  let seqFrom := (events.head?.map RunEvent.seq).getD s.nextSeq
  let batch := fill wire s.limits.maxBatchBytes RunEventBatch.addGap (s.header seqFrom) s.gaps
  if batch.gapAdvances.length < s.gaps.length then
    { batch with seqFrom := s.resumeAt batch.gapAdvances }
  else fill wire s.limits.maxBatchBytes RunEventBatch.addEvent batch events

def nextBatch : Option (RunEventBatch B) × EventSession B :=
  if s.nextSeq = 1 then (none, s)
  else
    match s.started with
    | some started => (some { s.header 1 with events := [started] }, s.counted)
    | none =>
      if s.snapshot.isEmpty && s.gaps.isEmpty && !s.producerLossDirty then (none, s)
      else (some (s.composeBatch wire), s.counted)

end EventSession

/-! ## Acknowledgements -/

inductive AckDisposition where
  | unspecified
  | accepted
  | rejectedStale
  | rejectedInvalid
  | needsResync
  deriving DecidableEq

structure BatchAck where
  runId : Text
  disposition : AckDisposition
  ackedSeq : Nat
  expectedNextSeq : Nat
  retryAfterMs : Nat

structure RunEventAck where
  runId : Text
  ackedSeq : Nat
  expectedNextSeq : Nat

inductive AckAction where
  | continue (retryAfterMs : Nat)
  | staleDropped
  | invalidRejected
  | needsResync
  deriving DecidableEq

namespace EventSession

def acknowledgeUpTo (s : EventSession B) (seq : Nat) : Option (EventSession B) := do
  let ring ← s.ring.acknowledgeUpTo wire seq
  some
    { s with
      started := if 1 ≤ seq then none else s.started
      ring := ring
      loss := s.loss.acknowledgeUpTo seq }

def acknowledgeWhen (nonzero : Bool) (s : EventSession B) (seq : Nat) : Option (EventSession B) :=
  if nonzero then acknowledgeUpTo wire s seq else some s

/-- The numbers of an acknowledgement do not fit the session. -/
def refuses (s : EventSession B) (runId : Text) (ackedSeq expectedNextSeq : Nat) : Bool :=
  decide (runId ≠ s.runId) || decide (expectedNextSeq ≠ min (ackedSeq + 1) u64Max) ||
    decide (s.nextSeq < expectedNextSeq) || decide (expectedNextSeq < s.serverExpectedNextSeq)

def handleAck (s : EventSession B) (ack : BatchAck) : Option (AckAction × EventSession B) :=
  if s.refuses ack.runId ack.ackedSeq ack.expectedNextSeq then some (.invalidRejected, s)
  else
    match ack.disposition with
    | .accepted => do
        let s' ← acknowledgeUpTo wire { s with serverExpectedNextSeq := ack.expectedNextSeq }
          ack.ackedSeq
        some (.continue ack.retryAfterMs, { s' with
            producerLossDirty := decide (s'.lastSentProducerLoss < s'.producerDroppedEvents) })
    | .rejectedStale => do
        let s' ← acknowledgeWhen wire (decide (0 < ack.expectedNextSeq))
          { s with serverExpectedNextSeq := ack.expectedNextSeq } (ack.expectedNextSeq - 1)
        some (.staleDropped, s')
    | .rejectedInvalid | .unspecified => some (.invalidRejected, s)
    | .needsResync => some (.needsResync, s)

def handleGetRunAck (s : EventSession B) (ack : RunEventAck) :
    Option (AckAction × EventSession B) :=
  if s.refuses ack.runId ack.ackedSeq ack.expectedNextSeq then some (.invalidRejected, s)
  else do
    let s' ← acknowledgeWhen wire (decide (0 < ack.ackedSeq))
      { s with
        serverExpectedNextSeq := ack.expectedNextSeq
        producerLossDirty := decide (0 < s.producerDroppedEvents) } ack.ackedSeq
    some (.continue 0, s')

end EventSession

/-! ## Runs -/

inductive SessionOp (B : Type) where
  | ordinary (payload : Payload B) (epochMs monoNs : Int)
  | terminal (result : B) (epochMs monoNs : Int)
  | producerLoss (count : Nat)
  | batch
  | ack (ack : BatchAck)
  | runAck (ack : RunEventAck)

namespace EventSession

/-- The session after an operation, unless it panics. -/
def step (s : EventSession B) : SessionOp B → Option (EventSession B)
  | .ordinary payload epochMs monoNs => (pushOrdinary wire s payload epochMs monoNs).map Prod.snd
  | .terminal result epochMs monoNs => (pushTerminal s result epochMs monoNs).map Prod.snd
  | .producerLoss count => some (s.recordProducerLoss count)
  | .batch => some (nextBatch wire s).2
  | .ack ack => (handleAck wire s ack).map Prod.snd
  | .runAck ack => (handleGetRunAck wire s ack).map Prod.snd

def run (s : EventSession B) : List (SessionOp B) → Option (EventSession B)
  | [] => some s
  | op :: rest =>
    match step wire s op with
    | none => none
    | some s' => run s' rest

end EventSession

end OnceBuild.Events
