import Ratum.Base.Amortized
import Ratum.Core.Bytes

/-!
# The lines of a stratum client

The reads of `Connection::serve` of `gateway/src/stratum/connection.rs`: what a read gives is added to a
buffer, and every line the buffer holds whole is handled. What a line says, and whether handling it ends the
connection, is open here.
-/

namespace Ratum

def CLIENT_BUFFER : Nat := 16384 * 3 + 1024

def READ_CHUNK : Nat := 4096

def NEWLINE : UInt8 := 0x0a

/-- The bytes up to the first newline, and those after it. -/
def firstLine : Bytes → Option (Bytes × Bytes)
  | [] => none
  | b :: bytes =>
      if b = NEWLINE then some ([], bytes)
      else (firstLine bytes).map fun (line, rest) => (b :: line, rest)

namespace LineReader

inductive Phase
  /-- Waiting for the next read. -/
  | polling
  /-- In the loop over the lines of the buffer. -/
  | draining
  | ended
  deriving DecidableEq

end LineReader

structure LineReader where
  buf : Bytes
  phase : LineReader.Phase
  deriving DecidableEq

namespace LineReader

inductive Event
  | read (chunk : Bytes)
  | handled (line : Bytes)
  | drained
  /-- The buffer is full and holds no whole line. -/
  | overrun (chunk : Bytes)
  /-- The client is idle, killed or gone, or a line is refused. -/
  | ended
  deriving DecidableEq

inductive Step : LineReader → Event → LineReader → Prop
  | read {r : LineReader} {chunk : Bytes} (hphase : r.phase = .polling) (hchunk : chunk ≠ [])
      (hsize : chunk.length ≤ READ_CHUNK) (hfits : (r.buf ++ chunk).length < CLIENT_BUFFER) :
      Step r (.read chunk) ⟨r.buf ++ chunk, .draining⟩
  | overrun {r : LineReader} {chunk : Bytes} (hphase : r.phase = .polling) (hchunk : chunk ≠ [])
      (hsize : chunk.length ≤ READ_CHUNK) (hfull : CLIENT_BUFFER ≤ (r.buf ++ chunk).length) :
      Step r (.overrun chunk) ⟨r.buf ++ chunk, .ended⟩
  | handle {r : LineReader} {line rest : Bytes} (hphase : r.phase = .draining)
      (hline : firstLine r.buf = some (line, rest)) : Step r (.handled line) ⟨rest, .draining⟩
  | drained {r : LineReader} (hphase : r.phase = .draining) (hline : firstLine r.buf = none) :
      Step r .drained { r with phase := .polling }
  | stop {r : LineReader} : Step r .ended { r with phase := .ended }

def serving : Lts LineReader Event where
  init r := r = ⟨[], .polling⟩
  step := Step

/-- The bytes a trace read, in order. -/
def received (trace : List Event) : Bytes :=
  trace.flatMap fun
    | .read chunk => chunk
    | .overrun chunk => chunk
    | _ => []

def handled (trace : List Event) : List Bytes :=
  trace.filterMap fun
    | .handled line => some line
    | _ => none

/-- Lines, each with its newline. -/
def unlines (lines : List Bytes) : Bytes := lines.flatMap (· ++ [NEWLINE])

/-! ### The first line of a buffer -/

theorem firstLine_spec {buf line rest : Bytes} (h : firstLine buf = some (line, rest)) :
    buf = line ++ NEWLINE :: rest ∧ NEWLINE ∉ line := by
  induction buf generalizing line with
  | nil => cases h
  | cons b buf ih =>
      rw [firstLine] at h
      split at h
      case isTrue hnewline =>
          cases h
          exact ⟨by rw [hnewline]; rfl, List.not_mem_nil⟩
      case isFalse hother =>
          obtain ⟨⟨line', rest'⟩, hfirst, heq⟩ := Option.map_eq_some_iff.mp h
          cases heq
          obtain ⟨rfl, hnone⟩ := ih hfirst
          exact ⟨rfl, fun hmem => (List.mem_cons.mp hmem).elim (fun h => hother h.symm) hnone⟩

theorem firstLine_eq_none {buf : Bytes} (h : firstLine buf = none) : NEWLINE ∉ buf := by
  induction buf with
  | nil => exact List.not_mem_nil
  | cons b buf ih =>
      rw [firstLine] at h
      split at h
      · cases h
      case isFalse hother =>
          have hnone := ih (Option.map_eq_none_iff.mp h)
          exact fun hmem => (List.mem_cons.mp hmem).elim (fun h => hother h.symm) hnone

/-! ### Runs -/

/-- The bytes read are the lines handled and what the buffer holds. -/
structure Sound (trace : List Event) (r : LineReader) : Prop where
  bytes : received trace = unlines (handled trace) ++ r.buf
  lines : ∀ line ∈ handled trace, NEWLINE ∉ line ∧ line.length < CLIENT_BUFFER
  fits : r.phase ≠ .ended → r.buf.length < CLIENT_BUFFER
  drained : r.phase = .polling → NEWLINE ∉ r.buf

variable {trace : List Event} {r r' : LineReader} {e : Event}

theorem received_append (trace : List Event) (e : Event) :
    received (trace ++ [e]) = received trace ++ received [e] := List.flatMap_append

theorem handled_append (trace : List Event) (e : Event) :
    handled (trace ++ [e]) = handled trace ++ handled [e] := List.filterMap_append

theorem Sound.step (hsound : Sound trace r) (hstep : serving.step r e r') : Sound (trace ++ [e]) r' := by
  obtain ⟨hbytes, hlines, hfits, hdrained⟩ := hsound
  have hquiet (hnone : handled [e] = []) : handled (trace ++ [e]) = handled trace := by
    rw [handled_append, hnone, List.append_nil]
  cases hstep with
  | @read chunk hphase hchunk hsize hroom =>
      have hmore : received [Event.read chunk] = chunk := List.append_nil _
      refine ⟨?_, by rw [hquiet rfl]; exact hlines, fun _ => hroom, fun h => by cases h⟩
      rw [received_append, hbytes, hquiet rfl, hmore, List.append_assoc]
  | @overrun chunk hphase hchunk hsize hfull =>
      have hmore : received [Event.overrun chunk] = chunk := List.append_nil _
      refine ⟨?_, by rw [hquiet rfl]; exact hlines, fun h => absurd rfl h, fun h => by cases h⟩
      rw [received_append, hbytes, hquiet rfl, hmore, List.append_assoc]
  | @handle line rest hphase hline =>
      obtain ⟨hbuf, hnone⟩ := firstLine_spec hline
      have hroom := hfits (by rw [hphase]; decide)
      have hlength := congrArg List.length hbuf
      rw [List.length_append, List.length_cons] at hlength
      have hone : handled (trace ++ [.handled line]) = handled trace ++ [line] := handled_append _ _
      refine ⟨?_, ?_, fun _ => ?_, fun h => by cases h⟩
      · rw [received_append, hbytes, hone, hbuf, unlines, unlines, List.flatMap_append, List.append_assoc]
        simp [received]
      · rw [hone]
        intro other hother
        rcases List.mem_append.mp hother with hold | hnew
        · exact hlines other hold
        · rw [List.mem_singleton.mp hnew]
          exact ⟨hnone, by omega⟩
      · show rest.length < CLIENT_BUFFER
        omega
  | drained hphase hline =>
      refine ⟨?_, by rw [hquiet rfl]; exact hlines, fun _ => hfits (by rw [hphase]; decide), fun _ => firstLine_eq_none hline⟩
      rw [received_append, hbytes, hquiet rfl]
      exact List.append_nil _
  | stop =>
      refine ⟨?_, by rw [hquiet rfl]; exact hlines, fun h => absurd rfl h, fun h => by cases h⟩
      rw [received_append, hbytes, hquiet rfl]
      exact List.append_nil _

theorem Sound.of_run (hrun : serving.Run trace r) : Sound trace r := by
  refine hrun.invariant (fun s hs => ?_) fun _ _ _ _ hsound hstep => hsound.step hstep
  rw [show s = _ from hs]
  exact ⟨rfl, by simp [handled], fun _ => by decide, fun _ => List.not_mem_nil⟩

/-- A client that overruns the buffer sent that many bytes, but for a read's, without a newline. -/
theorem Sound.of_overrun (hsound : Sound trace r) {chunk : Bytes} (hstep : serving.step r (.overrun chunk) r') :
    NEWLINE ∉ r.buf ∧ CLIENT_BUFFER - READ_CHUNK ≤ r.buf.length := by
  cases hstep with
  | overrun hphase hchunk hsize hfull =>
      rw [List.length_append] at hfull
      exact ⟨hsound.drained hphase, by omega⟩

/-- **Requests are handled line by line, however the reads cut them.** -/
theorem serving_lines (hrun : serving.Run trace r) :
    unlines (handled trace) <+: received trace ∧
      (∀ line ∈ handled trace, NEWLINE ∉ line ∧ line.length < CLIENT_BUFFER) ∧
      (r.phase = .polling → ∃ rest, received trace = unlines (handled trace) ++ rest ∧ NEWLINE ∉ rest) ∧
      (∀ before chunk after, trace = before ++ .overrun chunk :: after →
        ∃ rest, received before = unlines (handled before) ++ rest ∧ NEWLINE ∉ rest ∧
          CLIENT_BUFFER - READ_CHUNK ≤ rest.length) := by
  have hsound := Sound.of_run hrun
  refine ⟨⟨r.buf, hsound.bytes.symm⟩, hsound.lines, fun hphase => ⟨r.buf, hsound.bytes, hsound.drained hphase⟩, ?_⟩
  rintro before chunk after rfl
  obtain ⟨s, s', hbefore, hstep⟩ := hrun.exists_step
  have hsound := Sound.of_run hbefore
  exact ⟨s.buf, hsound.bytes, hsound.of_overrun hstep⟩

/-- A request cut in two, and the start of the next. -/
theorem serving_lines_cut : ∃ (trace : List Event) (r : LineReader),
    serving.Run trace r ∧ handled trace = [[0x7b, 0x7d]] ∧ unlines (handled trace) <+: received trace := by
  have start : serving.Run [] ⟨[], .polling⟩ := .start rfl
  have first := start.next (@Step.read _ [0x7b] rfl (by decide) (by decide) (by decide))
  have drained := first.next (.drained rfl (by decide))
  have second := drained.next (@Step.read _ [0x7d, NEWLINE, 0x7b] rfl (by decide) (by decide) (by decide))
  have handled := second.next (@Step.handle _ [0x7b, 0x7d] [0x7b] rfl (by decide))
  exact ⟨_, _, handled, by decide, (serving_lines handled).1⟩

end LineReader

end Ratum
