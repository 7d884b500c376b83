import Ratum.Base.Amortized
import Ratum.Core.PolledSocket
import Ratum.Datum.Framing

/-!
# Frames over a socket

`read_next_frame` and `read_frame` of `core/src/datum/framing.rs`, one end calling them while the other writes
frames with `write_all`. The system takes and gives the bytes in pieces of any size, and either end may fail or
stop at any time.
-/

namespace Ratum

open PolledSocket

def PARTIAL_HEADER_TIMEOUT : Duration := .fromSecs 30

/-- What one end writes and the other reads. -/
structure Frame where
  header : FrameHeader
  body : Bytes
  deriving DecidableEq

structure Frame.Valid (f : Frame) : Prop where
  fits : f.header.Fits
  length : f.header.cmdLen.toNat = f.body.length

/-- A call that reads a frame, with its limits. -/
inductive FrameCall
  /-- `read_next_frame`. -/
  | next (maxLen : Nat) (bodyIdle bodyTotal : Duration)
  /-- `read_frame`. -/
  | whole (maxLen : Nat) (deadline : Instant)

namespace FrameCall

def maxLen : FrameCall → Nat
  | next maxLen _ _ => maxLen
  | whole maxLen _ => maxLen

/-- How long the header may stall, and take in all. -/
def headLimits (now : Instant) : FrameCall → Duration × Duration
  | next .. => (PARTIAL_HEADER_TIMEOUT, PARTIAL_HEADER_TIMEOUT)
  | whole _ deadline => (deadline - now, deadline - now)

def bodyLimits (now : Instant) : FrameCall → Duration × Duration
  | next _ idle total => (idle, total)
  | whole _ deadline => (deadline - now, deadline - now)

end FrameCall

/-- A call of `read_exact` under way. -/
structure Reading where
  loop : ReadExact
  idle : Duration
  total : Duration

namespace Reading

def start (size : Nat) (limits : Duration × Duration) (now : Instant) : Reading :=
  ⟨.start size [] now, limits.1, limits.2⟩

def full (r : Reading) : Bool := r.loop.got.length = r.loop.size

end Reading

inductive ReaderPhase
  /-- Between two calls. -/
  | between
  /-- Reading the rest of a header. -/
  | head (call : FrameCall) (front : Bytes) (reading : Reading)
  | body (header : FrameHeader) (reading : Reading)
  /-- The peer closed, or the call failed. -/
  | ended

inductive WriterPhase
  | between
  /-- In `write_all`, with the bytes left to write. -/
  | writing (rest : Bytes) (deadline : Instant)
  | ended

/-- The socket of one direction and its two ends. -/
structure FrameLink where
  /-- The bytes the system was given and has not given on. -/
  wire : Bytes
  /-- Whether the writer may still write. -/
  isOpen : Bool
  writerKey : HeaderKeyRatchet
  writer : WriterPhase
  readerKey : HeaderKeyRatchet
  readable : Bool
  reader : ReaderPhase

inductive FrameEvent
  | quiet
  /-- A frame is handed to `write_all`. -/
  | sent (f : Frame)
  /-- `write_all` returned without an error. -/
  | written
  | received (f : Frame)
  /-- `FrameRead::Closed`. -/
  | closed
  /-- The call that reads failed. -/
  | failed (call : Option FrameCall) (e : SocketError)

namespace FrameLink

/-- What a read can be answered: some of the bytes next in turn, or none once the writer closed. -/
def Gives (link : FrameLink) (room : Nat) : ReadAnswer → Prop
  | .bytes got => got.length ≤ room ∧ got <+: link.wire ∧ (got = [] → link.wire = [] ∧ link.isOpen = false)
  | _ => True

/-- What a write can be answered. -/
def Takes (rest : Bytes) (a : WriteTurn) : Prop :=
  match a.write with
  | .wrote n => n ≤ rest.length
  | _ => True

instance (link : FrameLink) (room : Nat) (answer : ReadAnswer) : Decidable (link.Gives room answer) :=
  match answer with
  | .bytes got => inferInstanceAs
      (Decidable (got.length ≤ room ∧ got <+: link.wire ∧ (got = [] → link.wire = [] ∧ link.isOpen = false)))
  | .wouldBlock => .isTrue trivial
  | .interrupted => .isTrue trivial
  | .failed _ => .isTrue trivial

instance (rest : Bytes) (a : WriteTurn) : Decidable (Takes rest a) :=
  match a with
  | ⟨.wrote n, _, _⟩ => inferInstanceAs (Decidable (n ≤ rest.length))
  | ⟨.wouldBlock, _, _⟩ => .isTrue trivial
  | ⟨.interrupted, _, _⟩ => .isTrue trivial
  | ⟨.failed _, _, _⟩ => .isTrue trivial

def frameBytes (key : HeaderKeyRatchet) (f : Frame) : Bytes := (key.mask f.header).2 ++ f.body

/-- The first read of `read_next_frame`. -/
def firstRead (link : FrameLink) (call : FrameCall) (now : Instant) (answer : ReadAnswer) :
    FrameLink × FrameEvent :=
  match PolledSocket.read link.readable answer with
  | (.error e, _) => ({ link with reader := .ended }, .failed none e)
  | (.ok none, readable) => ({ link with readable }, .quiet)
  | (.ok (some []), _) => ({ link with reader := .ended }, .closed)
  | (.ok (some got), readable) =>
      ({ link with
        wire := link.wire.drop got.length
        readable
        reader := .head call got (.start (HEADER_LEN - got.length) (call.headLimits now) now) }, .quiet)

/-- A turn of a `read_exact` under way. -/
def readTurn (link : FrameLink) (reading : Reading) (resume : Reading → ReaderPhase) (a : ReadTurn) :
    FrameLink × FrameEvent :=
  match reading.loop.turn reading.idle reading.total link.readable a with
  | .fails e => ({ link with reader := .ended }, .failed none e)
  | .goesOn loop readable =>
      ({ link with
        wire := link.wire.drop (loop.got.length - reading.loop.got.length)
        readable
        reader := resume { reading with loop } }, .quiet)

/-- The check of a header's length, once it is unmasked. -/
def checkLen (link : FrameLink) (call : FrameCall) (unmasked : HeaderKeyRatchet × FrameHeader) (now : Instant) :
    FrameLink × FrameEvent :=
  let len := unmasked.2.cmdLen.toNat
  if call.maxLen < len then
    ({ link with readerKey := unmasked.1, reader := .ended },
      .failed (some call) (.invalidData s!"frame of {len} bytes, over the {call.maxLen} allowed"))
  else
    ({ link with readerKey := unmasked.1, reader := .body unmasked.2 (.start len (call.bodyLimits now) now) },
      .quiet)

/-- The header is read. -/
def headRead (link : FrameLink) (call : FrameCall) (head : Bytes) (now : Instant) : FrameLink × FrameEvent :=
  link.checkLen call (link.readerKey.unmask head) now

def write (link : FrameLink) (rest : Bytes) (deadline : Instant) (a : WriteTurn) : FrameLink :=
  match writeTurn deadline rest a with
  | .fails _ => { link with writer := .ended }
  | .goesOn rest' => { link with wire := link.wire ++ a.written rest, writer := .writing rest' deadline }

inductive Step : FrameLink → FrameEvent → FrameLink → Prop
  | send {link : FrameLink} {f : Frame} (now : Instant) (hopen : link.isOpen = true)
      (hwriter : link.writer = .between) (hvalid : f.Valid) :
      Step link (.sent f) { link with
        writer := .writing (frameBytes link.writerKey f) (now + WRITE_TIMEOUT)
        writerKey := link.writerKey.advance }
  | write {link : FrameLink} {rest : Bytes} {deadline : Instant} (a : WriteTurn)
      (hwriter : link.writer = .writing rest deadline) (hrest : rest ≠ []) (htakes : Takes rest a) :
      Step link .quiet (link.write rest deadline a)
  | written {link : FrameLink} {deadline : Instant} (hwriter : link.writer = .writing [] deadline) :
      Step link .written { link with writer := .between }
  | close {link : FrameLink} : Step link .quiet { link with writer := .ended, isOpen := false }
  | poll {link : FrameLink} {readable : Bool} (a : PollAnswer) (hreader : link.reader = .between)
      (hpoll : wait link.readable a = .ok readable) : Step link .quiet { link with readable }
  | next {link : FrameLink} (maxLen : Nat) (idle total : Duration) (now : Instant) (answer : ReadAnswer)
      (hreader : link.reader = .between) (hgives : link.Gives HEADER_LEN answer) :
      Step link (link.firstRead (.next maxLen idle total) now answer).2
        (link.firstRead (.next maxLen idle total) now answer).1
  | whole {link : FrameLink} (maxLen : Nat) (deadline now : Instant) (hreader : link.reader = .between) :
      Step link .quiet { link with
        reader := .head (.whole maxLen deadline) []
          (.start HEADER_LEN ((FrameCall.whole maxLen deadline).headLimits now) now) }
  | headTurn {link : FrameLink} {call : FrameCall} {front : Bytes} {reading : Reading} (a : ReadTurn)
      (hreader : link.reader = .head call front reading) (hfull : reading.full = false)
      (hgives : link.Gives reading.loop.room a.read) :
      Step link (link.readTurn reading (.head call front) a).2 (link.readTurn reading (.head call front) a).1
  | headRead {link : FrameLink} {call : FrameCall} {front : Bytes} {reading : Reading} (now : Instant)
      (hreader : link.reader = .head call front reading) (hfull : reading.full = true) :
      Step link (link.headRead call (front ++ reading.loop.got) now).2
        (link.headRead call (front ++ reading.loop.got) now).1
  | bodyTurn {link : FrameLink} {header : FrameHeader} {reading : Reading} (a : ReadTurn)
      (hreader : link.reader = .body header reading) (hfull : reading.full = false)
      (hgives : link.Gives reading.loop.room a.read) :
      Step link (link.readTurn reading (.body header) a).2 (link.readTurn reading (.body header) a).1
  | bodyRead {link : FrameLink} {header : FrameHeader} {reading : Reading}
      (hreader : link.reader = .body header reading) (hfull : reading.full = true) :
      Step link (.received ⟨header, reading.loop.got⟩) { link with reader := .between }

/-- Two ends that start with one header key. -/
def framing (key : HeaderKeyRatchet) : Lts FrameLink FrameEvent where
  init link := link = ⟨[], true, key, .between, key, false, .between⟩
  step := Step

/-! ### The bytes of frames in a row -/

/-- The frames that a trace hands to `write_all`. -/
def sent (trace : List FrameEvent) : List Frame :=
  trace.filterMap fun
    | .sent f => some f
    | _ => none

def received (trace : List FrameEvent) : List Frame :=
  trace.filterMap fun
    | .received f => some f
    | _ => none

/-- How many frames were written without an error. -/
def written (trace : List FrameEvent) : Nat := trace.countP (· matches .written)

/-- The key after as many frames. -/
def keyAfter (key : HeaderKeyRatchet) : Nat → HeaderKeyRatchet
  | 0 => key
  | n + 1 => keyAfter key.advance n

def encode : HeaderKeyRatchet → List Frame → Bytes
  | _, [] => []
  | key, f :: frames => frameBytes key f ++ encode key.advance frames

theorem encode_append (key : HeaderKeyRatchet) (frames more : List Frame) :
    encode key (frames ++ more) = encode key frames ++ encode (keyAfter key frames.length) more := by
  induction frames generalizing key with
  | nil => rfl
  | cons f frames ih => rw [List.cons_append, encode, ih, encode, List.append_assoc, List.length_cons, keyAfter]

theorem keyAfter_succ (key : HeaderKeyRatchet) (n : Nat) : keyAfter key (n + 1) = (keyAfter key n).advance := by
  induction n generalizing key with
  | zero => rfl
  | succ n ih => rw [keyAfter, ih, keyAfter]

theorem encode_concat (key : HeaderKeyRatchet) (frames : List Frame) (f : Frame) :
    encode key (frames ++ [f]) = encode key frames ++ frameBytes (keyAfter key frames.length) f := by
  rw [encode_append, encode, encode, List.append_nil]

theorem frameBytes_ne_nil (key : HeaderKeyRatchet) (f : Frame) : frameBytes key f ≠ [] := by
  intro hnil
  have hlength := congrArg List.length hnil
  simp only [frameBytes, List.length_append, HeaderKeyRatchet.length_mask, List.length_nil, HEADER_LEN] at hlength
  omega

theorem sent_append (trace : List FrameEvent) (e : FrameEvent) :
    sent (trace ++ [e]) = sent trace ++ sent [e] := List.filterMap_append

theorem received_append (trace : List FrameEvent) (e : FrameEvent) :
    received (trace ++ [e]) = received trace ++ received [e] := List.filterMap_append

theorem written_append (trace : List FrameEvent) (e : FrameEvent) :
    written (trace ++ [e]) = written trace + written [e] := List.countP_append

/-! ### What the writer handed over -/

/-- What was handed to the system is the frames written whole, and the start of the one under way. -/
structure Wrote (key : HeaderKeyRatchet) (trace : List FrameEvent) (handed : Bytes) (link : FrameLink) :
    Prop where
  writerKey : link.writerKey = keyAfter key (sent trace).length
  valid : ∀ f ∈ sent trace, f.Valid
  whole : encode key ((sent trace).take (written trace)) <+: handed
  upTo : ∃ unwritten, handed ++ unwritten = encode key (sent trace) ∧
    match link.writer with
    | .between => unwritten = [] ∧ written trace = (sent trace).length
    | .writing rest _ => unwritten = rest ∧ written trace + 1 = (sent trace).length
    | .ended => written trace ≤ (sent trace).length

/-! ### What the reader took -/

/-- What the reader holds of the frame it is reading, and what it knows of it. -/
inductive Holds (key : HeaderKeyRatchet) (frames got : List Frame) : FrameLink → Bytes → Prop
  | between {link : FrameLink} (hreader : link.reader = .between)
      (hkey : link.readerKey = keyAfter key got.length) : Holds key frames got link []
  | head {link : FrameLink} {call : FrameCall} {front : Bytes} {reading : Reading}
      (hreader : link.reader = .head call front reading) (hkey : link.readerKey = keyAfter key got.length)
      (hsize : front.length + reading.loop.size = HEADER_LEN) (hle : reading.loop.got.length ≤ reading.loop.size) :
      Holds key frames got link (front ++ reading.loop.got)
  | body {link : FrameLink} {f : Frame} {more : List Frame} {reading : Reading}
      (hreader : link.reader = .body f.header reading) (hframes : frames = got ++ f :: more)
      (hkey : link.readerKey = keyAfter key (got.length + 1)) (hsize : reading.loop.size = f.body.length)
      (hle : reading.loop.got.length ≤ reading.loop.size) :
      Holds key frames got link (((keyAfter key got.length).mask f.header).2 ++ reading.loop.got)
  | ended {link : FrameLink} (hreader : link.reader = .ended) (held : Bytes) : Holds key frames got link held

structure Took (key : HeaderKeyRatchet) (trace : List FrameEvent) (handed : Bytes) (link : FrameLink) :
    Prop where
  inOrder : received trace <+: sent trace
  holds : ∃ held, handed = encode key (received trace) ++ held ++ link.wire ∧
    Holds key (sent trace) (received trace) link held

def Sound (key : HeaderKeyRatchet) (trace : List FrameEvent) (link : FrameLink) : Prop :=
  ∃ handed, Wrote key trace handed link ∧ Took key trace handed link

/-! ### The steps of the writer -/

variable {key : HeaderKeyRatchet} {trace : List FrameEvent} {handed : Bytes} {link link' : FrameLink}
  {e : FrameEvent}

/-- A step that is not the writer's. -/
theorem Wrote.of_reader (h : Wrote key trace handed link) (hsent : sent [e] = []) (hwritten : written [e] = 0)
    (hkey : link'.writerKey = link.writerKey) (hwriter : link'.writer = link.writer) :
    Wrote key (trace ++ [e]) handed link' := by
  have hs : sent (trace ++ [e]) = sent trace := by rw [sent_append, hsent, List.append_nil]
  have hw : written (trace ++ [e]) = written trace := by rw [written_append, hwritten, Nat.add_zero]
  refine ⟨?_, ?_, ?_, ?_⟩
  · rw [hkey, hs]
    exact h.writerKey
  · rw [hs]
    exact h.valid
  · rw [hs, hw]
    exact h.whole
  · rw [hs, hw, hwriter]
    exact h.upTo

theorem Wrote.send (h : Wrote key trace handed link) {f : Frame} (now : Instant)
    (hwriter : link.writer = .between) (hvalid : f.Valid) :
    Wrote key (trace ++ [.sent f]) handed { link with
      writer := .writing (frameBytes link.writerKey f) (now + WRITE_TIMEOUT)
      writerKey := link.writerKey.advance } := by
  obtain ⟨unwritten, hhanded, hphase⟩ := h.upTo
  rw [hwriter] at hphase
  obtain ⟨rfl, hcount⟩ := hphase
  have hs : sent (trace ++ [.sent f]) = sent trace ++ [f] := sent_append _ _
  have hw : written (trace ++ [.sent f]) = written trace := written_append _ _
  refine ⟨?_, ?_, ?_, ?_⟩
  · rw [hs, List.length_append, List.length_singleton, keyAfter_succ, ← h.writerKey]
  · rw [hs]
    intro g hg
    rcases List.mem_append.mp hg with hg | hg
    · exact h.valid g hg
    · rw [List.mem_singleton.mp hg]
      exact hvalid
  · rw [hs, hw, hcount, List.take_left]
    have hwhole := h.whole
    rwa [hcount, List.take_length] at hwhole
  · refine ⟨frameBytes link.writerKey f, ?_, rfl, ?_⟩
    · rw [List.append_nil] at hhanded
      rw [hs, encode_concat, hhanded, h.writerKey]
    · rw [hs, hw, hcount, List.length_append, List.length_singleton]

theorem Wrote.written (h : Wrote key trace handed link) {deadline : Instant}
    (hwriter : link.writer = .writing [] deadline) :
    Wrote key (trace ++ [.written]) handed { link with writer := .between } := by
  obtain ⟨unwritten, hhanded, hphase⟩ := h.upTo
  rw [hwriter] at hphase
  obtain ⟨rfl, hcount⟩ := hphase
  have hs : sent (trace ++ [.written]) = sent trace := by
    rw [sent_append]
    exact List.append_nil _
  have hw : FrameLink.written (trace ++ [.written]) = FrameLink.written trace + 1 := written_append _ _
  rw [List.append_nil] at hhanded
  refine ⟨by rw [hs]; exact h.writerKey, by rw [hs]; exact h.valid, ?_, ?_⟩
  · simp only [hs, hw, hcount, List.take_length, hhanded, List.prefix_rfl]
  · exact ⟨[], by rw [hs, List.append_nil, hhanded], rfl, by rw [hw, hs, hcount]⟩

theorem written_of_fails {deadline : Instant} {rest : Bytes} {a : WriteTurn} {e : SocketError}
    (h : writeTurn deadline rest a = .fails e) : link.write rest deadline a = { link with writer := .ended } := by
  rw [FrameLink.write, h]

theorem write_of_goesOn {deadline : Instant} {rest rest' : Bytes} {a : WriteTurn}
    (h : writeTurn deadline rest a = .goesOn rest') : link.write rest deadline a =
      { link with wire := link.wire ++ a.written rest, writer := .writing rest' deadline } := by
  rw [FrameLink.write, h]

theorem written_le (h : Wrote key trace handed link) : FrameLink.written trace ≤ (sent trace).length := by
  obtain ⟨unwritten, -, hphase⟩ := h.upTo
  cases hwriter : link.writer <;> rw [hwriter] at hphase
  case between => exact hphase.2.le
  case writing => exact Nat.le_of_lt (Nat.lt_of_succ_le hphase.2.le)
  case ended => exact hphase

theorem Wrote.stop (h : Wrote key trace handed link) (isOpen : Bool) :
    Wrote key (trace ++ [.quiet]) handed { link with writer := .ended, isOpen } := by
  obtain ⟨unwritten, hhanded, -⟩ := h.upTo
  have hs : sent (trace ++ [.quiet]) = sent trace := by
    rw [sent_append]
    exact List.append_nil _
  have hw : FrameLink.written (trace ++ [.quiet]) = FrameLink.written trace := written_append _ _
  exact ⟨by rw [hs]; exact h.writerKey, by rw [hs]; exact h.valid, by rw [hs, hw]; exact h.whole,
    unwritten, by rw [hs]; exact hhanded, by rw [hs, hw]; exact written_le h⟩

theorem Wrote.write (h : Wrote key trace handed link) {rest rest' : Bytes} {deadline : Instant} {a : WriteTurn}
    (hwriter : link.writer = .writing rest deadline) (hturn : writeTurn deadline rest a = .goesOn rest') :
    Wrote key (trace ++ [.quiet]) (handed ++ a.written rest)
      { link with wire := link.wire ++ a.written rest, writer := .writing rest' deadline } := by
  obtain ⟨unwritten, hhanded, hphase⟩ := h.upTo
  rw [hwriter] at hphase
  obtain ⟨rfl, hcount⟩ := hphase
  have hs : sent (trace ++ [.quiet]) = sent trace := by
    rw [sent_append]
    exact List.append_nil _
  have hw : FrameLink.written (trace ++ [.quiet]) = FrameLink.written trace := written_append _ _
  refine ⟨by rw [hs]; exact h.writerKey, by rw [hs]; exact h.valid, ?_, ?_⟩
  · rw [hs, hw]
    exact h.whole.trans (List.prefix_append _ _)
  · refine ⟨rest', ?_, rfl, by rw [hs, hw]; exact hcount⟩
    rw [hs, List.append_assoc, written_append_of_goesOn hturn]
    exact hhanded

/-! ### The steps of the reader -/

theorem Holds.mono {frames got : List Frame} {held : Bytes} (h : Holds key frames got link held)
    (more : List Frame) (hreader : link'.reader = link.reader) (hkey : link'.readerKey = link.readerKey) :
    Holds key (frames ++ more) got link' held := by
  cases h with
  | between hbetween hown => exact .between (hreader.trans hbetween) (hkey.trans hown)
  | head hhead hown hsize hle => exact .head (hreader.trans hhead) (hkey.trans hown) hsize hle
  | body hbody hframes hown hsize hle =>
      exact .body (hreader.trans hbody) (by rw [hframes, List.append_assoc, List.cons_append]) (hkey.trans hown)
        hsize hle
  | ended hended => exact .ended (hreader.trans hended) _

/-- A step of the writer, with what it hands over. -/
theorem Took.of_writer (h : Took key trace handed link) (hreceived : received [e] = []) (more : Bytes)
    (hreader : link'.reader = link.reader) (hkey : link'.readerKey = link.readerKey)
    (hwire : link'.wire = link.wire ++ more) : Took key (trace ++ [e]) (handed ++ more) link' := by
  have hr : received (trace ++ [e]) = received trace := by rw [received_append, hreceived, List.append_nil]
  obtain ⟨held, hhanded, hholds⟩ := h.holds
  refine ⟨?_, held, ?_, ?_⟩
  · rw [hr, sent_append]
    exact h.inOrder.trans (List.prefix_append _ _)
  · rw [hr, hhanded, hwire, List.append_assoc, List.append_assoc]
  · rw [hr, sent_append]
    exact hholds.mono _ hreader hkey

/-- A step of the writer that hands nothing over. -/
theorem Took.of_writer_still (h : Took key trace handed link) (hreceived : received [e] = [])
    (hreader : link'.reader = link.reader) (hkey : link'.readerKey = link.readerKey)
    (hwire : link'.wire = link.wire) : Took key (trace ++ [e]) handed link' := by
  have htook := h.of_writer hreceived [] hreader hkey (hwire.trans (List.append_nil _).symm)
  rwa [List.append_nil] at htook

/-- The frame the reader holds a part of. -/
theorem exists_next (hwrote : Wrote key trace handed link) (htook : Took key trace handed link) {held : Bytes}
    (hhanded : handed = encode key (received trace) ++ held ++ link.wire) (hne : held ≠ []) :
    ∃ f more after, sent trace = received trace ++ f :: more ∧ f.Valid ∧
      held ++ after = frameBytes (keyAfter key (received trace).length) f ++
        encode (keyAfter key (received trace).length).advance more := by
  obtain ⟨more, hmore⟩ := htook.inOrder
  obtain ⟨unwritten, hall, -⟩ := hwrote.upTo
  rw [← hmore, encode_append, hhanded, List.append_assoc, List.append_assoc] at hall
  have hrest := List.append_cancel_left hall
  cases more with
  | nil =>
      rw [encode, List.append_eq_nil_iff] at hrest
      exact absurd hrest.1 hne
  | cons f more =>
      refine ⟨f, more, link.wire ++ unwritten, hmore.symm, ?_, hrest⟩
      refine hwrote.valid f ?_
      rw [← hmore]
      simp

/-- A whole header held is the next frame's. -/
theorem unmask_held (hwrote : Wrote key trace handed link) (htook : Took key trace handed link) {held : Bytes}
    (hhanded : handed = encode key (received trace) ++ held ++ link.wire) (hlength : held.length = HEADER_LEN) :
    ∃ f more, sent trace = received trace ++ f :: more ∧ f.Valid ∧
      held = ((keyAfter key (received trace).length).mask f.header).2 ∧
      (keyAfter key (received trace).length).unmask held =
        ((keyAfter key (received trace).length).advance, f.header) := by
  have hne : held ≠ [] := by
    rintro rfl
    cases hlength
  obtain ⟨f, more, after, hsent, hvalid, hbytes⟩ := exists_next hwrote htook hhanded hne
  rw [frameBytes, List.append_assoc] at hbytes
  have hmask := (List.append_inj hbytes (hlength.trans (HeaderKeyRatchet.length_mask _ _).symm)).1
  exact ⟨f, more, hsent, hvalid, hmask, by rw [hmask, HeaderKeyRatchet.unmask_mask _ hvalid.fits]⟩

/-- A whole body held after its header is the next frame's. -/
theorem body_held (hwrote : Wrote key trace handed link) (htook : Took key trace handed link) {f : Frame}
    {more : List Frame} {body : Bytes}
    (hhanded : handed = encode key (received trace) ++
      (((keyAfter key (received trace).length).mask f.header).2 ++ body) ++ link.wire)
    (hsent : sent trace = received trace ++ f :: more) (hlength : body.length = f.body.length) : body = f.body := by
  have hne : ((keyAfter key (received trace).length).mask f.header).2 ++ body ≠ [] := frameBytes_ne_nil _ ⟨_, body⟩
  obtain ⟨g, more', after, hsent', hvalid, hbytes⟩ := exists_next hwrote htook hhanded hne
  rw [hsent] at hsent'
  cases List.append_cancel_left hsent'
  rw [frameBytes, List.append_assoc, List.append_assoc] at hbytes
  exact (List.append_inj (List.append_cancel_left hbytes) hlength).1

/-- A step of the reader that ends no frame. -/
theorem Took.of_reader (h : Took key trace handed link) (hsent : sent [e] = []) (hreceived : received [e] = [])
    {held : Bytes} (hhanded : handed = encode key (received trace) ++ held ++ link'.wire)
    (hholds : Holds key (sent trace) (received trace) link' held) : Took key (trace ++ [e]) handed link' := by
  have hs : sent (trace ++ [e]) = sent trace := by rw [sent_append, hsent, List.append_nil]
  have hr : received (trace ++ [e]) = received trace := by rw [received_append, hreceived, List.append_nil]
  exact ⟨by rw [hs, hr]; exact h.inOrder, held, by rw [hr]; exact hhanded, by rw [hs, hr]; exact hholds⟩

/-- The reader stops. -/
theorem Took.of_ended (h : Took key trace handed link) (hsent : sent [e] = []) (hreceived : received [e] = [])
    (hreader : link'.reader = .ended) (hwire : link'.wire = link.wire) : Took key (trace ++ [e]) handed link' := by
  obtain ⟨held, hhanded, -⟩ := h.holds
  exact h.of_reader hsent hreceived (hwire ▸ hhanded) (.ended hreader held)

/-- What a turn of `read_exact` takes off the wire is what its buffer gains. -/
theorem drop_of_goesOn {reading : Reading} {loop : ReadExact} {readable : Bool} {a : ReadTurn}
    (hgives : link.Gives reading.loop.room a.read)
    (hturn : reading.loop.turn reading.idle reading.total link.readable a = .goesOn loop readable)
    (hle : reading.loop.got.length ≤ reading.loop.size) :
    loop.size = reading.loop.size ∧ loop.got.length ≤ loop.size ∧
      loop.got ++ link.wire.drop (loop.got.length - reading.loop.got.length) = reading.loop.got ++ link.wire := by
  rcases ReadExact.goesOn_cases hturn with rfl | ⟨got, -, hread, hsize, hgot⟩
  · rw [Nat.sub_self, List.drop_zero]
    exact ⟨rfl, hle, rfl⟩
  · rw [hread] at hgives
    obtain ⟨hroom, ⟨rest, hrest⟩, -⟩ := hgives
    rw [ReadExact.room] at hroom
    refine ⟨hsize, ?_, ?_⟩
    · rw [hsize, hgot, List.length_append]
      omega
    · rw [hgot, List.length_append, Nat.add_sub_cancel_left, ← hrest, List.drop_left, List.append_assoc]

theorem Took.firstRead (h : Took key trace handed link) {call : FrameCall} {now : Instant} {answer : ReadAnswer}
    (hreader : link.reader = .between) (hgives : link.Gives HEADER_LEN answer) :
    Took key (trace ++ [(link.firstRead call now answer).2]) handed (link.firstRead call now answer).1 := by
  obtain ⟨held, hhanded, hholds⟩ := h.holds
  cases hholds with
  | between _ hkey =>
      cases answer with
      | wouldBlock => exact h.of_reader rfl rfl hhanded (.between hreader hkey)
      | interrupted => exact h.of_reader rfl rfl hhanded (.between hreader hkey)
      | failed e => exact h.of_ended rfl rfl rfl rfl
      | bytes got =>
          cases got with
          | nil => exact h.of_ended rfl rfl rfl rfl
          | cons b got =>
              obtain ⟨hroom, ⟨rest, hrest⟩, -⟩ := hgives
              have hholds := @Holds.head key (sent trace) (received trace)
                (link.firstRead call now (.bytes (b :: got))).1 call (b :: got) _ rfl hkey
                (Nat.add_sub_cancel' hroom) (Nat.zero_le _)
              refine h.of_reader rfl rfl ?_ hholds
              change handed = encode key (received trace) ++ (b :: got ++ []) ++ link.wire.drop (b :: got).length
              rw [hhanded, ← hrest, List.drop_left, List.append_nil, List.append_nil, List.append_assoc]
  | head hhead => cases hreader.symm.trans hhead
  | body hbody => cases hreader.symm.trans hbody
  | ended hended => cases hreader.symm.trans hended

theorem Took.readTurn (h : Took key trace handed link) {reading : Reading} {resume : Reading → ReaderPhase}
    {a : ReadTurn}
    (hresume : ∀ loop readable, reading.loop.turn reading.idle reading.total link.readable a = .goesOn loop readable →
      Took key (trace ++ [.quiet]) handed { link with
        wire := link.wire.drop (loop.got.length - reading.loop.got.length)
        readable
        reader := resume { reading with loop } }) :
    Took key (trace ++ [(link.readTurn reading resume a).2]) handed (link.readTurn reading resume a).1 := by
  unfold FrameLink.readTurn
  cases hturn : reading.loop.turn reading.idle reading.total link.readable a with
  | goesOn loop readable => exact hresume loop readable hturn
  | fails e => exact h.of_ended rfl rfl rfl rfl

theorem Took.headTurn (h : Took key trace handed link) {call : FrameCall} {front : Bytes} {reading : Reading}
    {a : ReadTurn} (hreader : link.reader = .head call front reading)
    (hgives : link.Gives reading.loop.room a.read) :
    Took key (trace ++ [(link.readTurn reading (.head call front) a).2]) handed
      (link.readTurn reading (.head call front) a).1 := by
  refine h.readTurn fun loop readable hturn => ?_
  obtain ⟨held, hhanded, hholds⟩ := h.holds
  cases hholds with
  | head hhead hkey hsize hle =>
      cases hreader.symm.trans hhead
      obtain ⟨hsame, hle', hbytes⟩ := drop_of_goesOn hgives hturn hle
      refine h.of_reader rfl rfl ?_ (.head rfl hkey (by rw [← hsize]; exact congrArg _ hsame) hle')
      rw [hhanded]
      simp only [List.append_assoc]
      exact congrArg _ (congrArg _ hbytes.symm)
  | between hbetween => cases hreader.symm.trans hbetween
  | body hbody => cases hreader.symm.trans hbody
  | ended hended => cases hreader.symm.trans hended

theorem Took.bodyTurn (h : Took key trace handed link) {header : FrameHeader} {reading : Reading} {a : ReadTurn}
    (hreader : link.reader = .body header reading) (hgives : link.Gives reading.loop.room a.read) :
    Took key (trace ++ [(link.readTurn reading (.body header) a).2]) handed
      (link.readTurn reading (.body header) a).1 := by
  refine h.readTurn fun loop readable hturn => ?_
  obtain ⟨held, hhanded, hholds⟩ := h.holds
  cases hholds with
  | body hbody hframes hkey hsize hle =>
      cases hreader.symm.trans hbody
      obtain ⟨hsame, hle', hbytes⟩ := drop_of_goesOn hgives hturn hle
      refine h.of_reader rfl rfl ?_ (.body rfl hframes hkey (hsame.trans hsize) hle')
      rw [hhanded]
      simp only [List.append_assoc]
      exact congrArg _ (congrArg _ hbytes.symm)
  | between hbetween => cases hreader.symm.trans hbetween
  | head hhead => cases hreader.symm.trans hhead
  | ended hended => cases hreader.symm.trans hended

/-- A frame's header is read, and its body is next. -/
theorem Took.checkLen (h : Took key trace handed link) (call : FrameCall) {f : Frame} {more : List Frame}
    (now : Instant) (hsent : sent trace = received trace ++ f :: more)
    (hlength : f.header.cmdLen.toNat = f.body.length)
    (hhanded : handed = encode key (received trace) ++
      ((keyAfter key (received trace).length).mask f.header).2 ++ link.wire)
    {readerKey : HeaderKeyRatchet} (hkey : readerKey = keyAfter key ((received trace).length + 1)) :
    Took key (trace ++ [(link.checkLen call (readerKey, f.header) now).2]) handed
      (link.checkLen call (readerKey, f.header) now).1 := by
  unfold FrameLink.checkLen
  dsimp only
  split
  · exact h.of_ended rfl rfl rfl rfl
  · refine h.of_reader rfl rfl ?_ (.body rfl hsent hkey hlength (Nat.zero_le _))
    rw [hhanded]
    exact congrArg (· ++ link.wire) (congrArg _ (List.append_nil _).symm)

/-- The header read is the next frame's. -/
theorem Took.headRead (hwrote : Wrote key trace handed link) (h : Took key trace handed link) {call : FrameCall}
    {front : Bytes} {reading : Reading} (now : Instant) (hreader : link.reader = .head call front reading)
    (hfull : reading.full = true) :
    Took key (trace ++ [(link.headRead call (front ++ reading.loop.got) now).2]) handed
      (link.headRead call (front ++ reading.loop.got) now).1 := by
  obtain ⟨held, hhanded, hholds⟩ := h.holds
  cases hholds with
  | head hhead hkey hsize hle =>
      cases hreader.symm.trans hhead
      have hlength : (front ++ reading.loop.got).length = HEADER_LEN := by
        rw [List.length_append, of_decide_eq_true hfull]
        exact hsize
      obtain ⟨f, more, hsent, hvalid, hheld, hunmask⟩ := unmask_held hwrote h hhanded hlength
      rw [← hkey] at hunmask
      rw [FrameLink.headRead, hunmask]
      refine h.checkLen call now hsent hvalid.length (hheld ▸ hhanded) ?_
      rw [hkey, keyAfter_succ]
  | between hbetween => cases hreader.symm.trans hbetween
  | body hbody => cases hreader.symm.trans hbody
  | ended hended => cases hreader.symm.trans hended

/-- The body read is the next frame's. -/
theorem Took.bodyRead (hwrote : Wrote key trace handed link) (h : Took key trace handed link)
    {header : FrameHeader} {reading : Reading} (hreader : link.reader = .body header reading)
    (hfull : reading.full = true) :
    Took key (trace ++ [.received ⟨header, reading.loop.got⟩]) handed { link with reader := .between } := by
  obtain ⟨held, hhanded, hholds⟩ := h.holds
  cases hholds with
  | @body f more _ hbody hframes hkey hsize hle =>
      cases hreader.symm.trans hbody
      have hlength : reading.loop.got.length = f.body.length := (of_decide_eq_true hfull).trans hsize
      have hgot := body_held hwrote h hhanded hframes hlength
      have hframe : (⟨f.header, reading.loop.got⟩ : Frame) = f := by rw [hgot]
      have hr : received (trace ++ [.received f]) = received trace ++ [f] := received_append _ _
      have hs : sent (trace ++ [.received f]) = sent trace := by
        rw [sent_append]
        exact List.append_nil _
      rw [hframe]
      refine ⟨?_, [], ?_, ?_⟩
      · rw [hr, hs, hframes]
        exact ⟨more, by rw [List.append_assoc, List.singleton_append]⟩
      · rw [hr, encode_concat, frameBytes, hhanded, hgot, List.append_nil]
      · rw [hr]
        exact .between rfl (by rw [hkey, List.length_append, List.length_singleton])
  | between hbetween => cases hreader.symm.trans hbetween
  | head hhead => cases hreader.symm.trans hhead
  | ended hended => cases hreader.symm.trans hended

/-! ### Runs -/

/-- What a step of the reader does is nothing to the writer. -/
structure LeavesWriter (link : FrameLink) (after : FrameLink × FrameEvent) : Prop where
  writerKey : after.1.writerKey = link.writerKey
  writer : after.1.writer = link.writer
  sent : sent [after.2] = []
  written : FrameLink.written [after.2] = 0

theorem readTurn_leaves (link : FrameLink) (reading : Reading) (resume : Reading → ReaderPhase) (a : ReadTurn) :
    LeavesWriter link (link.readTurn reading resume a) := by
  unfold FrameLink.readTurn
  split
  · exact ⟨rfl, rfl, rfl, rfl⟩
  · exact ⟨rfl, rfl, rfl, rfl⟩

theorem firstRead_leaves (link : FrameLink) (call : FrameCall) (now : Instant) (answer : ReadAnswer) :
    LeavesWriter link (link.firstRead call now answer) := by
  unfold FrameLink.firstRead
  split
  · exact ⟨rfl, rfl, rfl, rfl⟩
  · exact ⟨rfl, rfl, rfl, rfl⟩
  · exact ⟨rfl, rfl, rfl, rfl⟩
  · exact ⟨rfl, rfl, rfl, rfl⟩

theorem checkLen_leaves (link : FrameLink) (call : FrameCall) (unmasked : HeaderKeyRatchet × FrameHeader)
    (now : Instant) : LeavesWriter link (link.checkLen call unmasked now) := by
  unfold FrameLink.checkLen
  dsimp only
  split
  · exact ⟨rfl, rfl, rfl, rfl⟩
  · exact ⟨rfl, rfl, rfl, rfl⟩

theorem Wrote.of_leaves (h : Wrote key trace handed link) {after : FrameLink × FrameEvent}
    (hleaves : LeavesWriter link after) : Wrote key (trace ++ [after.2]) handed after.1 :=
  h.of_reader hleaves.sent hleaves.written hleaves.writerKey hleaves.writer

theorem Sound.step (hsound : Sound key trace link) (hstep : (framing key).step link e link') :
    Sound key (trace ++ [e]) link' := by
  obtain ⟨handed, hwrote, htook⟩ := hsound
  cases hstep with
  | send now hopen hwriter hvalid =>
      exact ⟨handed, hwrote.send now hwriter hvalid, htook.of_writer_still rfl rfl rfl rfl⟩
  | @write rest deadline a hwriter hrest htakes =>
      cases hturn : writeTurn deadline rest a with
      | fails e =>
          rw [written_of_fails hturn]
          exact ⟨handed, hwrote.stop _, htook.of_writer_still rfl rfl rfl rfl⟩
      | goesOn rest' =>
          rw [write_of_goesOn hturn]
          exact ⟨handed ++ a.written rest, hwrote.write hwriter hturn, htook.of_writer rfl _ rfl rfl rfl⟩
  | written hwriter =>
      exact ⟨handed, hwrote.written hwriter, htook.of_writer_still rfl rfl rfl rfl⟩
  | close =>
      exact ⟨handed, hwrote.stop _, htook.of_writer_still rfl rfl rfl rfl⟩
  | poll a hreader hpoll =>
      exact ⟨handed, hwrote.of_reader rfl rfl rfl rfl, htook.of_writer_still rfl rfl rfl rfl⟩
  | next maxLen idle total now answer hreader hgives =>
      exact ⟨handed, hwrote.of_leaves (firstRead_leaves _ _ _ _), htook.firstRead hreader hgives⟩
  | whole maxLen deadline now hreader =>
      refine ⟨handed, hwrote.of_reader rfl rfl rfl rfl, ?_⟩
      obtain ⟨held, hhanded, hholds⟩ := htook.holds
      cases hholds with
      | between _ hkey =>
          refine htook.of_reader rfl rfl hhanded ?_
          exact @Holds.head key _ _ _ (.whole maxLen deadline) []
            (.start HEADER_LEN ((FrameCall.whole maxLen deadline).headLimits now) now) rfl hkey rfl (Nat.zero_le _)
      | head hhead => cases hreader.symm.trans hhead
      | body hbody => cases hreader.symm.trans hbody
      | ended hended => cases hreader.symm.trans hended
  | headTurn a hreader hfull hgives =>
      exact ⟨handed, hwrote.of_leaves (readTurn_leaves _ _ _ _), htook.headTurn hreader hgives⟩
  | headRead now hreader hfull =>
      exact ⟨handed, hwrote.of_leaves (checkLen_leaves _ _ _ _), htook.headRead hwrote now hreader hfull⟩
  | bodyTurn a hreader hfull hgives =>
      exact ⟨handed, hwrote.of_leaves (readTurn_leaves _ _ _ _), htook.bodyTurn hreader hgives⟩
  | bodyRead hreader hfull =>
      exact ⟨handed, hwrote.of_reader rfl rfl rfl rfl, htook.bodyRead hwrote hreader hfull⟩

theorem Sound.of_run (hrun : (framing key).Run trace link) : Sound key trace link := by
  refine hrun.invariant (fun s hs => ?_) fun _ _ _ _ hsound hstep => hsound.step hstep
  rw [show s = _ from hs]
  exact ⟨[], ⟨rfl, by simp [sent], List.prefix_rfl, [], rfl, rfl, rfl⟩, List.prefix_rfl, [], rfl, .between rfl rfl⟩

/-! ### The end of a stream -/

theorem length_frameBytes (key : HeaderKeyRatchet) (f : Frame) :
    (frameBytes key f).length = HEADER_LEN + f.body.length := by
  rw [frameBytes, List.length_append, HeaderKeyRatchet.length_mask]

/-- Every byte handed over is taken, and what is held is not a whole frame: no frame written whole is missing. -/
theorem written_le_received (hwrote : Wrote key trace handed link) (htook : Took key trace handed link)
    {held : Bytes} (hhanded : handed = encode key (received trace) ++ held)
    (hpart : ∀ f more, sent trace = received trace ++ f :: more → held.length < HEADER_LEN + f.body.length) :
    FrameLink.written trace ≤ (received trace).length := by
  by_contra hlost
  obtain ⟨more, hmore⟩ := htook.inOrder
  cases more with
  | nil =>
      have hle := written_le hwrote
      rw [← hmore, List.append_nil] at hle
      exact hlost hle
  | cons f more =>
      have hwhole := hwrote.whole.length_le
      have htake : (sent trace).take (FrameLink.written trace) = received trace ++ f ::
          more.take (FrameLink.written trace - (received trace).length - 1) := by
        obtain ⟨n, hn⟩ : ∃ n, FrameLink.written trace = (received trace).length + (n + 1) :=
          ⟨FrameLink.written trace - (received trace).length - 1, by omega⟩
        rw [← hmore, hn, List.take_length_add_append, List.take_succ_cons]
        congr 3
        omega
      have hpart := hpart f more hmore.symm
      rw [htake, encode_append, hhanded, encode, List.length_append, List.length_append, List.length_append,
        length_frameBytes] at hwhole
      omega

theorem turn_fails {reading : Reading} {resume : Reading → ReaderPhase} {a : ReadTurn}
    (hevent : (link.readTurn reading resume a).2 = .closed ∨
      (link.readTurn reading resume a).2 = .failed none .unexpectedEof) :
    reading.loop.turn reading.idle reading.total link.readable a = .fails .unexpectedEof := by
  unfold FrameLink.readTurn at hevent
  cases hturn : reading.loop.turn reading.idle reading.total link.readable a with
  | goesOn loop readable =>
      rw [hturn] at hevent
      rcases hevent with h | h <;> cases h
  | fails e =>
      rw [hturn] at hevent
      rcases hevent with h | h
      · cases h
      · cases h
        rfl

/-- The reader sees the end of the stream. -/
theorem Sound.closed (hsound : Sound key trace link) (hstep : (framing key).step link e link')
    (hevent : e = .closed ∨ e = .failed none .unexpectedEof) :
    FrameLink.written trace ≤ (received trace).length := by
  obtain ⟨handed, hwrote, htook⟩ := hsound
  obtain ⟨held, hhanded, hholds⟩ := htook.holds
  have hends (hwire : link.wire = []) : handed = encode key (received trace) ++ held := by
    rw [hhanded, hwire, List.append_nil]
  cases hstep with
  | next maxLen idle total now answer hreader hgives =>
      cases hholds with
      | between =>
          cases answer with
          | bytes got =>
              cases got with
              | nil => exact written_le_received hwrote htook (hends (hgives.2.2 rfl).1) fun f _ _ => by simp [HEADER_LEN]
              | cons b got => rcases hevent with h | h <;> cases h
          | wouldBlock => rcases hevent with h | h <;> cases h
          | interrupted => rcases hevent with h | h <;> cases h
          | failed e => rcases hevent with h | h <;> cases h
      | head hhead => cases hreader.symm.trans hhead
      | body hbody => cases hreader.symm.trans hbody
      | ended hended => cases hreader.symm.trans hended
  | @headTurn call front reading a hreader hfull hgives =>
      have hread := (ReadExact.read_of_unexpectedEof (turn_fails hevent)).2
      rw [hread] at hgives
      cases hholds with
      | head hhead hkey hsize hle =>
          cases hreader.symm.trans hhead
          refine written_le_received hwrote htook (hends (hgives.2.2 rfl).1) fun f more _ => ?_
          have hshort := of_decide_eq_false hfull
          rw [List.length_append]
          omega
      | between hbetween => cases hreader.symm.trans hbetween
      | body hbody => cases hreader.symm.trans hbody
      | ended hended => cases hreader.symm.trans hended
  | @bodyTurn header reading a hreader hfull hgives =>
      have hread := (ReadExact.read_of_unexpectedEof (turn_fails hevent)).2
      rw [hread] at hgives
      cases hholds with
      | body hbody hframes hkey hsize hle =>
          cases hreader.symm.trans hbody
          refine written_le_received hwrote htook (hends (hgives.2.2 rfl).1) fun f more hsent => ?_
          have hshort := of_decide_eq_false hfull
          rw [hframes] at hsent
          cases List.append_cancel_left hsent
          rw [List.length_append, HeaderKeyRatchet.length_mask]
          omega
      | between hbetween => cases hreader.symm.trans hbetween
      | head hhead => cases hreader.symm.trans hhead
      | ended hended => cases hreader.symm.trans hended
  | headRead now hreader hfull =>
      rw [FrameLink.headRead, FrameLink.checkLen] at hevent
      split at hevent
      · rcases hevent with h | h <;> cases h
      · rcases hevent with h | h <;> cases h
  | _ => rcases hevent with h | h <;> cases h

theorem checkLen_failed {call call' : FrameCall} {unmasked : HeaderKeyRatchet × FrameHeader} {now : Instant}
    {error : SocketError} (hevent : (link.checkLen call' unmasked now).2 = .failed (some call) error) :
    call.maxLen < unmasked.2.cmdLen.toNat := by
  rw [FrameLink.checkLen] at hevent
  split at hevent
  case isTrue hlong =>
      cases hevent
      exact hlong
  case isFalse => cases hevent

/-- A header whose length is refused is the next frame's. -/
theorem Sound.tooLong (hsound : Sound key trace link) {call : FrameCall} {error : SocketError}
    (hstep : (framing key).step link e link') (hevent : e = .failed (some call) error) :
    ∃ f more, sent trace = received trace ++ f :: more ∧ call.maxLen < f.body.length := by
  obtain ⟨handed, hwrote, htook⟩ := hsound
  obtain ⟨held, hhanded, hholds⟩ := htook.holds
  cases hstep with
  | @headRead call' front reading now hreader hfull =>
      cases hholds with
      | head hhead hkey hsize hle =>
          cases hreader.symm.trans hhead
          have hlength : (front ++ reading.loop.got).length = HEADER_LEN := by
            rw [List.length_append, of_decide_eq_true hfull]
            exact hsize
          obtain ⟨f, more, hsent, hvalid, -, hunmask⟩ := unmask_held hwrote htook hhanded hlength
          rw [FrameLink.headRead, hkey, hunmask] at hevent
          exact ⟨f, more, hsent, hvalid.length ▸ checkLen_failed hevent⟩
      | between hbetween => cases hreader.symm.trans hbetween
      | body hbody => cases hreader.symm.trans hbody
      | ended hended => cases hreader.symm.trans hended
  | next maxLen idle total now answer hreader hgives =>
      rw [FrameLink.firstRead] at hevent
      split at hevent <;> cases hevent
  | headTurn a hreader hfull hgives =>
      rw [FrameLink.readTurn] at hevent
      split at hevent <;> cases hevent
  | bodyTurn a hreader hfull hgives =>
      rw [FrameLink.readTurn] at hevent
      split at hevent <;> cases hevent
  | _ => cases hevent

/-- **Frames come through a socket whole and in order**, however the system cuts the bytes: what is read is the
first of what was written, the end of the stream loses no frame written whole, and a length is refused for a
frame that has it. -/
theorem framing_reads (hrun : (framing key).Run trace link) :
    received trace <+: sent trace ∧
      (∀ before e after, trace = before ++ e :: after → e = .closed ∨ e = .failed none .unexpectedEof →
        FrameLink.written before ≤ (received before).length) ∧
      (∀ before call error after, trace = before ++ .failed (some call) error :: after →
        ∃ f more, sent before = received before ++ f :: more ∧ call.maxLen < f.body.length) := by
  obtain ⟨handed, hwrote, htook⟩ := Sound.of_run hrun
  refine ⟨htook.inOrder, ?_, ?_⟩
  · rintro before e after rfl hevent
    obtain ⟨s, s', hbefore, hstep⟩ := hrun.exists_step
    exact (Sound.of_run hbefore).closed hstep hevent
  · rintro before call error after rfl
    obtain ⟨s, s', hbefore, hstep⟩ := hrun.exists_step
    exact (Sound.of_run hbefore).tooLong hstep rfl

/-- A frame of one byte, as a gateway sends a mining message. -/
def oneByte : Frame :=
  ⟨{ FrameHeader.default with cmdLen := 1, isEncryptedChannel := true, protoCmd := 5 }, [9]⟩

/-- The frame is written in two pieces and its header is read in two, and then the writer closes. -/
theorem framing_reads_oneByte : ∃ (trace : List FrameEvent) (link : FrameLink),
    (framing .initial).Run (trace ++ [.closed]) link ∧ received trace = [oneByte] ∧
      received (trace ++ [.closed]) <+: sent (trace ++ [.closed]) ∧
      FrameLink.written trace ≤ (received trace).length := by
  have start : (framing .initial).Run [] _ := .start rfl
  have sent := start.next (.send 0 rfl rfl (show oneByte.Valid from ⟨⟨by decide, by decide, by decide⟩, rfl⟩))
  have written₃ := sent.next (.write ⟨.wrote 3, 0, .interrupted⟩ rfl (by decide) (by decide))
  have found := written₃.next (.poll (.events true) rfl rfl)
  have read₃ := found.next (.next 8 1 1 0 (.bytes [0x28, 0x18, 0x87]) rfl (by decide +kernel))
  have written₅ := read₃.next (.write ⟨.wrote 2, 0, .interrupted⟩ rfl (by decide) (by decide))
  have written := written₅.next (.written rfl)
  have head := written.next (.headTurn ⟨0, 0, .interrupted, .bytes [0xf0], 0⟩ rfl (by decide) (by decide +kernel))
  have header := head.next (.headRead 0 rfl (by decide))
  have byte := header.next (.bodyTurn ⟨0, 0, .interrupted, .bytes [9], 0⟩ rfl (by decide) (by decide +kernel))
  have body := byte.next (.bodyRead rfl (by decide))
  have closed := body.next .close
  have ended := closed.next (.next 8 1 1 0 (.bytes []) rfl (by decide +kernel))
  obtain ⟨hfirst, hclosed, -⟩ := framing_reads ended
  exact ⟨_, _, ended, by decide +kernel, hfirst, hclosed _ _ [] rfl (.inl rfl)⟩

end FrameLink

end Ratum
