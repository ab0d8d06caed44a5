import OnceBuild.Events.Loss
import OnceBuild.Lib.PathText
import OnceBuild.Lib.Words

/-!
# The ring of unacknowledged events

Ordinary events wait in a queue that is bounded by their number and by their size; the events that
end a run have places of their own.  The size of an event is that of its encoding, which is a
parameter.
-/

namespace OnceBuild.Events

open Lib

structure LogChunk where
  scope : Text
  stream : Int
  offset : Nat
  bytes : List UInt8
  deriving DecidableEq

/-- What an event says; `B` is what the session does not look at. -/
inductive Payload (B : Type) where
  | runStarted (body : B)
  | runFinalizing (declaredDrainMs : Nat)
  | runCompleted (body : B)
  | logChunk (chunk : LogChunk)
  | actionCompleted (body : B)
  | other (body : B)
  deriving DecidableEq

structure RunEvent (B : Type) where
  seq : Nat
  epochMs : Int
  monoNs : Int
  payload : Payload B
  deriving DecidableEq

/-- What the encoding makes of events: their size, and how an action is reduced to a size. -/
structure Wire (B : Type) where
  encodedLen : RunEvent B → Nat
  fitAction : Nat → RunEvent B → B → B

structure PendingEvent (B : Type) where
  seq : Nat
  event : RunEvent B
  deriving DecidableEq

inductive RingPushOutcome where
  | accepted
  | overflowDropped (first last : Nat)
  | oversizedDropped (seq : Nat)
  deriving DecidableEq

structure RingBuffer (B : Type) where
  events : List (PendingEvent B)
  ordinaryCapacity : Nat
  maxEncodedBytes : Nat
  encodedBytes : Nat
  finalizingSlot : Option (PendingEvent B)
  terminalSlot : Option (PendingEvent B)
  deriving DecidableEq

variable {B : Type} (wire : Wire B)

namespace RingBuffer

def withByteCapacity (ordinaryCapacity maxEncodedBytes : Nat) : RingBuffer B :=
  ⟨[], max ordinaryCapacity 1, maxEncodedBytes, 0, none, none⟩

/-- There is no room for so many bytes more. -/
def full (capacity maxBytes bytes : Nat) (count encodedBytes : Nat) : Bool :=
  decide (capacity ≤ count) || decide (maxBytes < encodedBytes + bytes)

/-- What the loop that makes room leaves. -/
structure Evicted (B : Type) where
  events : List (PendingEvent B)
  encodedBytes : Nat
  firstDropped : Nat
  lastDropped : Nat

def evict (capacity maxBytes bytes : Nat) :
    List (PendingEvent B) → Nat → Nat → Nat → Option (Evicted B)
  | [], encoded, first, last =>
    -- `pop_front` on an empty ring is a panic
    if full capacity maxBytes bytes 0 encoded then none else some ⟨[], encoded, first, last⟩
  | dropped :: rest, encoded, first, last =>
    if full capacity maxBytes bytes (rest.length + 1) encoded then
      if encoded < wire.encodedLen dropped.event then none
      else
        evict capacity maxBytes bytes rest (encoded - wire.encodedLen dropped.event)
          (if dropped.seq < first then dropped.seq else first)
          (if last < dropped.seq then dropped.seq else last)
    else some ⟨dropped :: rest, encoded, first, last⟩

variable (ring : RingBuffer B)

def pushOrdinary (event : PendingEvent B) : Option (RingPushOutcome × RingBuffer B) :=
  let bytes := wire.encodedLen event.event
  if ring.maxEncodedBytes < bytes then some (.oversizedDropped event.seq, ring)
  else if full ring.ordinaryCapacity ring.maxEncodedBytes bytes ring.events.length
      ring.encodedBytes then do
    let left ← evict wire ring.ordinaryCapacity ring.maxEncodedBytes bytes ring.events
      ring.encodedBytes u64Max 0
    some (.overflowDropped left.firstDropped left.lastDropped, { ring with
        events := left.events ++ [event]
        encodedBytes := left.encodedBytes + bytes })
  else
    some (.accepted,
      { ring with events := ring.events ++ [event], encodedBytes := ring.encodedBytes + bytes })

def placeTerminal (event : PendingEvent B) : RingBuffer B :=
  { ring with terminalSlot := some event }

def placeFinalizing (event : PendingEvent B) : RingBuffer B :=
  { ring with finalizingSlot := some (ring.finalizingSlot.getD event) }

def snapshotUpTo (most : Nat) : List (PendingEvent B) :=
  let out := ring.events.take most
  let out := if out.length < most then out ++ ring.finalizingSlot.toList else out
  if out.length < most then out ++ ring.terminalSlot.toList else out

/-- The loop that drops acknowledged events; the size falls below zero only with a panic. -/
def acknowledgeLoop (acked : Nat) :
    List (PendingEvent B) → Nat → Option (List (PendingEvent B) × Nat)
  | [], encoded => some ([], encoded)
  | head :: rest, encoded =>
    if head.seq ≤ acked then
      if encoded < wire.encodedLen head.event then none
      else acknowledgeLoop acked rest (encoded - wire.encodedLen head.event)
    else some (head :: rest, encoded)

def acknowledgeSlot (acked : Nat) (slot : Option (PendingEvent B)) : Option (PendingEvent B) :=
  slot.filter fun event => decide (acked < event.seq)

def acknowledgeUpTo (acked : Nat) : Option (RingBuffer B) := do
  let (events, encoded) ← acknowledgeLoop wire acked ring.events ring.encodedBytes
  some
    { ring with
      events := events
      encodedBytes := encoded
      finalizingSlot := acknowledgeSlot acked ring.finalizingSlot
      terminalSlot := acknowledgeSlot acked ring.terminalSlot }

def isEmpty : Bool := ring.events.isEmpty && ring.finalizingSlot.isNone && ring.terminalSlot.isNone

/-! ## What the loops leave -/

def totalLen (events : List (PendingEvent B)) : Nat :=
  (events.map fun e => wire.encodedLen e.event).foldr (· + ·) 0

@[simp] lemma totalLen_nil : totalLen wire ([] : List (PendingEvent B)) = 0 := rfl

@[simp] lemma totalLen_cons (e : PendingEvent B) (events : List (PendingEvent B)) :
    totalLen wire (e :: events) = wire.encodedLen e.event + totalLen wire events := rfl

lemma totalLen_append (events more : List (PendingEvent B)) :
    totalLen wire (events ++ more) = totalLen wire events + totalLen wire more := by
  induction events with
  | nil => exact (Nat.zero_add _).symm
  | cons e events ih => rw [List.cons_append, totalLen_cons, totalLen_cons, ih, Nat.add_assoc]

/-- The events that have to go to make room. -/
def toEvict (capacity maxBytes bytes : Nat) : List (PendingEvent B) → List (PendingEvent B)
  | [] => []
  | e :: rest =>
    if full capacity maxBytes bytes (rest.length + 1) (totalLen wire (e :: rest)) then
      e :: toEvict capacity maxBytes bytes rest
    else []

lemma toEvict_isPrefix (capacity maxBytes bytes : Nat) (events : List (PendingEvent B)) :
    toEvict wire capacity maxBytes bytes events <+: events := by
  induction events with
  | nil => exact List.prefix_refl _
  | cons e rest ih =>
    unfold toEvict
    split
    · exact (List.prefix_cons_inj e).mpr ih
    · exact List.nil_prefix

def toKeep (capacity maxBytes bytes : Nat) (events : List (PendingEvent B)) :
    List (PendingEvent B) :=
  events.drop (toEvict wire capacity maxBytes bytes events).length

/-- The least and the greatest of some numbers, as the loop finds them. -/
def leastFrom (first : Nat) (seqs : List Nat) : Nat :=
  seqs.foldl (fun f n => if n < f then n else f) first

def greatestFrom (last : Nat) (seqs : List Nat) : Nat :=
  seqs.foldl (fun l n => if l < n then n else l) last

lemma evict_eq {capacity maxBytes bytes : Nat} (hcapacity : 1 ≤ capacity)
    (hbytes : bytes ≤ maxBytes) (events : List (PendingEvent B)) (first last : Nat) :
    evict wire capacity maxBytes bytes events (totalLen wire events) first last =
      some ⟨toKeep wire capacity maxBytes bytes events,
        totalLen wire (toKeep wire capacity maxBytes bytes events),
        leastFrom first ((toEvict wire capacity maxBytes bytes events).map PendingEvent.seq),
        greatestFrom last ((toEvict wire capacity maxBytes bytes events).map
          PendingEvent.seq)⟩ := by
  induction events generalizing first last with
  | nil =>
    have hroom : full capacity maxBytes bytes 0 0 = false := by
      unfold full
      rw [decide_eq_false (by omega), decide_eq_false (by omega)]
      rfl
    simp [evict, toEvict, toKeep, leastFrom, greatestFrom, hroom]
  | cons e rest ih =>
    simp only [evict, toEvict, toKeep]
    split
    next hfull =>
      have hlen : ¬totalLen wire (e :: rest) < wire.encodedLen e.event := by
        rw [totalLen_cons]
        omega
      have hrest : totalLen wire (e :: rest) - wire.encodedLen e.event = totalLen wire rest := by
        rw [totalLen_cons]
        omega
      rw [if_neg hlen, hrest]
      exact ih _ _
    next hroom => rfl

lemma acknowledgeLoop_eq (acked : Nat) (events : List (PendingEvent B)) :
    acknowledgeLoop wire acked events (totalLen wire events) =
      some (events.dropWhile fun e => decide (e.seq ≤ acked),
        totalLen wire (events.dropWhile fun e => decide (e.seq ≤ acked))) := by
  induction events with
  | nil => rfl
  | cons e rest ih =>
    unfold acknowledgeLoop
    split
    next hle =>
      have hlen : ¬totalLen wire (e :: rest) < wire.encodedLen e.event := by
        rw [totalLen_cons]
        omega
      have hrest : totalLen wire (e :: rest) - wire.encodedLen e.event = totalLen wire rest := by
        rw [totalLen_cons]
        omega
      rw [if_neg hlen, hrest, ih]
      simp only [List.dropWhile_cons, decide_eq_true hle, if_true]
    next hlt => simp only [List.dropWhile_cons, decide_eq_false hlt, Bool.false_eq_true, if_false]

end RingBuffer

end OnceBuild.Events
