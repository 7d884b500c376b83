import Ratum.Base.Occurrence
import Ratum.Http.Head

/-!
# A request read off a connection

`read_some` and `read_request` of `core/src/http.rs`, over what each read of the connection gives. What they end
with is what the whole stream the client sends gives, however it is split.
-/

namespace Ratum.Http

open Occurrence (At First find)

def MAX_HEAD_LEN : Nat := 16 * 1024

def READ_CHUNK_LEN : Nat := 4096

def HEAD_END : Bytes := [0x0d, 0x0a, 0x0d, 0x0a]

structure Request (Addr : Type) where
  method : Method
  url : String
  headers : List (String × String)
  body : Bytes
  peer : Addr

def TOO_LATE : Refusal := .status 408 "the request was not received in time"

def HEAD_TOO_LONG : Refusal := .status 431 "the request line and headers are too long"

/-- What is there to read of a connection when it is read next. -/
inductive Read
  | bytes (chunk : Bytes)
  | interrupted
  /-- The deadline has passed, or the read times out. -/
  | timedOut
  | failed

/-- Reads onto the end of `buf` until it holds at most `limit` bytes; what one read leaves is there for the
next, and after the last the client has closed the connection. -/
def readSome (limit : Nat) (buf : Bytes) : List Read → Except Refusal (Bytes × List Read)
  | [] => .error .closed
  | .timedOut :: _ => .error TOO_LATE
  | .failed :: _ => .error .closed
  | .interrupted :: reads => .ok (buf, reads)
  | .bytes chunk :: reads =>
      let want := min (limit - buf.length) READ_CHUNK_LEN
      if (chunk.take want).isEmpty then .error .closed
      else .ok (buf ++ chunk.take want, if chunk.length ≤ want then reads else .bytes (chunk.drop want) :: reads)

/-- The bytes there are to read, and one for each read. -/
def Read.size : Read → Nat
  | .bytes chunk => chunk.length + 1
  | _ => 1

def readsSize (reads : List Read) : Nat := (reads.map Read.size).sum

theorem readsSize_readSome {limit : Nat} {buf buf' : Bytes} {reads reads' : List Read}
    (hread : readSome limit buf reads = .ok (buf', reads')) : readsSize reads' < readsSize reads := by
  cases reads with
  | nil => cases hread
  | cons read reads =>
      cases read with
      | timedOut => cases hread
      | failed => cases hread
      | interrupted =>
          obtain ⟨-, rfl⟩ := Prod.mk.inj (Except.ok.inj hread)
          show readsSize reads < 1 + readsSize reads
          omega
      | bytes chunk =>
          rw [readSome] at hread
          obtain ⟨htaken, hread⟩ := FailsIn.ok_of_guard hread
          obtain ⟨-, rfl⟩ := Prod.mk.inj (Except.ok.inj hread)
          rw [List.isEmpty_iff, List.take_eq_nil_iff, not_or] at htaken
          rw [readsSize, readsSize, List.map_cons, List.sum_cons, Read.size]
          split
          · omega
          · rw [List.map_cons, List.sum_cons, Read.size, List.length_drop]
            omega

/-- The loop that reads the head: where it ends, what has been read, and what is left to read. -/
def readHead (reads : List Read) (buf : Bytes) : Except Refusal (Nat × Bytes × List Read) :=
  let searchedTo := buf.length - (HEAD_END.length - 1)
  if MAX_HEAD_LEN ≤ buf.length then .error HEAD_TOO_LONG
  else
    match _hread : readSome MAX_HEAD_LEN buf reads with
    | .error refusal => .error refusal
    | .ok (buf', reads') =>
        match find buf' HEAD_END searchedTo with
        | some at_ => .ok (at_ + HEAD_END.length, buf', reads')
        | none => readHead reads' buf'
termination_by readsSize reads
decreasing_by exact readsSize_readSome ‹_›

/-- The loop that reads the rest of the body. -/
def readBody (length : Nat) (reads : List Read) (body : Bytes) : Except Refusal Bytes :=
  if length ≤ body.length then .ok body
  else
    match _hread : readSome length body reads with
    | .error refusal => .error refusal
    | .ok (body', reads') => readBody length reads' body'
termination_by readsSize reads
decreasing_by exact readsSize_readSome ‹_›

/-- Reads a request; the flag says whether writing the 100 Continue a client waits for succeeds. -/
def readRequest {Addr : Type} (peer : Addr) (maxBody : Nat) (continueWritten : Bool) (reads : List Read) :
    Except Refusal (Request Addr) := do
  let (headLen, buf, reads) ← readHead reads []
  let head ← parseHead (buf.take (headLen - HEAD_END.length))
  let length ← contentLength head.headers maxBody
  let body := (buf.drop headLen).take length
  let expectsContinue := head.headers.any fun h =>
    eqIgnoreAsciiCase h.1 "Expect" && eqIgnoreAsciiCase h.2 "100-continue"
  if body.length < length && expectsContinue && !continueWritten then throw .closed
  let body ← readBody length reads body
  pure { method := head.method, url := head.url, headers := head.headers, body, peer }

/-! ### The stream -/

/-- The bytes the client sends. -/
def sent (reads : List Read) : Bytes :=
  reads.flatMap fun
    | .bytes chunk => chunk
    | _ => []

/-- No read comes too late or fails, and none but the client's close is of no bytes. -/
def Prompt (reads : List Read) : Prop :=
  ∀ read ∈ reads, read = .interrupted ∨ ∃ chunk, read = .bytes chunk ∧ chunk ≠ []

/-- What the whole stream of a client gives. -/
def requestOf {Addr : Type} (peer : Addr) (maxBody : Nat) (stream : Bytes) : Except Refusal (Request Addr) :=
  match find (stream.take MAX_HEAD_LEN) HEAD_END 0 with
  | none => .error (if MAX_HEAD_LEN ≤ stream.length then HEAD_TOO_LONG else .closed)
  | some at_ => do
      let head ← parseHead (stream.take at_)
      let length ← contentLength head.headers maxBody
      let rest := stream.drop (at_ + HEAD_END.length)
      if rest.length < length then throw .closed
      pure { method := head.method, url := head.url, headers := head.headers, body := rest.take length, peer }

/-- A read takes some bytes more, as many as the limit leaves room for, or there are none. -/
theorem readSome_prompt {limit : Nat} {buf : Bytes} {reads : List Read} (hprompt : Prompt reads)
    (hroom : buf.length < limit) :
    sent reads = [] ∧ readSome limit buf reads = .error .closed ∨
      ∃ more reads', readSome limit buf reads = .ok (buf ++ more, reads') ∧ sent reads = more ++ sent reads' ∧
        buf.length + more.length ≤ limit ∧ Prompt reads' := by
  cases reads with
  | nil => exact .inl ⟨rfl, rfl⟩
  | cons read reads =>
      have hrest : Prompt reads := fun read' hread' => hprompt read' (List.mem_cons_of_mem read hread')
      refine .inr ?_
      obtain rfl | ⟨chunk, rfl, hne⟩ := hprompt read List.mem_cons_self
      · exact ⟨[], reads, by rw [readSome, List.append_nil], rfl, hroom.le, hrest⟩
      · have hwant : 0 < min (limit - buf.length) READ_CHUNK_LEN := by
          rw [READ_CHUNK_LEN]
          omega
        have hle : min (limit - buf.length) READ_CHUNK_LEN ≤ limit - buf.length := min_le_left _ _
        generalize hw : min (limit - buf.length) READ_CHUNK_LEN = want at hwant hle
        have htaken : (chunk.take want).isEmpty = false := by
          rw [List.isEmpty_eq_false_iff, ne_eq, List.take_eq_nil_iff, not_or]
          exact ⟨hwant.ne', hne⟩
        have hlength := List.length_take_le want chunk
        refine ⟨chunk.take want, if chunk.length ≤ want then reads else .bytes (chunk.drop want) :: reads, ?_, ?_,
          by omega, ?_⟩
        · rw [readSome, hw]
          simp only [htaken, Bool.false_eq_true, if_false]
        · split
          · rename_i hwhole
            rw [List.take_of_length_le hwhole]
            rfl
          · show chunk ++ sent reads = chunk.take want ++ (chunk.drop want ++ sent reads)
            rw [← List.append_assoc, List.take_append_drop]
        · split
          · exact hrest
          · rename_i hleft
            intro read' hread'
            obtain rfl | hread' := List.mem_cons.mp hread'
            · refine .inr ⟨_, rfl, ?_⟩
              rw [ne_eq, List.drop_eq_nil_iff]
              exact hleft
            · exact hrest read' hread'

/-- The rest of the body is what the stream goes on with. -/
theorem readBody_eq {length : Nat} {reads : List Read} {body : Bytes} (hprompt : Prompt reads)
    (hbody : body.length ≤ length) :
    readBody length reads body =
      if (body ++ sent reads).length < length then .error .closed else .ok ((body ++ sent reads).take length) := by
  fun_induction readBody length reads body with
  | case1 reads body hwhole =>
      have hlength : body.length = length := Nat.le_antisymm hbody hwhole
      rw [if_neg (by rw [List.length_append]; omega), List.take_append_of_le_length hwhole, ← hlength,
        List.take_length]
  | case2 reads body hshort refusal hread =>
      obtain ⟨hsent, hclosed⟩ | ⟨more, reads', hmore, -⟩ := readSome_prompt hprompt (not_le.mp hshort)
      · rw [hclosed] at hread
        rw [hsent, List.append_nil, if_pos (not_le.mp hshort), Except.error.inj hread]
      · rw [hmore] at hread
        cases hread
  | case3 reads body hshort body' reads' hread ih =>
      obtain ⟨-, hclosed⟩ | ⟨more, reads'', hmore, hsent, hroom, hprompt'⟩ :=
        readSome_prompt hprompt (not_le.mp hshort)
      · rw [hclosed] at hread
        cases hread
      · rw [hmore] at hread
        obtain ⟨rfl, rfl⟩ := Prod.mk.inj (Except.ok.inj hread)
        rw [ih hprompt' (by rwa [List.length_append]), hsent, List.append_assoc]

/-- Taking some of the first part changes nothing of that many of the whole. -/
theorem take_append_take (first rest : Bytes) (n : Nat) : (first.take n ++ rest).take n = (first ++ rest).take n := by
  rw [List.take_append, List.take_append, List.take_take, Nat.min_self, List.length_take]
  rcases Nat.le_total n first.length with hle | hle
  · rw [Nat.min_eq_left hle, Nat.sub_self, Nat.sub_eq_zero_of_le hle]
  · rw [Nat.min_eq_right hle]

theorem length_take_append_lt {n : Nat} (first rest : Bytes) :
    (first.take n ++ rest).length < n ↔ (first ++ rest).length < n := by
  rw [List.length_append, List.length_append, List.length_take]
  omega

theorem headEnd_ne_nil : HEAD_END ≠ [] := by decide

/-- The loop ends at the first blank line of the stream, or past the limit, or with the stream. The invariant:
what has been read so far begins the stream and holds no blank line. -/
theorem readHead_cases {reads : List Read} {buf : Bytes} (hprompt : Prompt reads) (hbuf : buf.length ≤ MAX_HEAD_LEN)
    (hnone : ∀ i, ¬ At HEAD_END buf i) :
    (∃ at_ buf' reads', First HEAD_END (buf ++ sent reads) at_ ∧ at_ + HEAD_END.length ≤ MAX_HEAD_LEN ∧
      readHead reads buf = .ok (at_ + HEAD_END.length, buf', reads') ∧ buf' ++ sent reads' = buf ++ sent reads ∧
      at_ + HEAD_END.length ≤ buf'.length ∧ Prompt reads') ∨
    (∀ i, ¬ At HEAD_END ((buf ++ sent reads).take MAX_HEAD_LEN) i) ∧
      readHead reads buf =
        .error (if MAX_HEAD_LEN ≤ (buf ++ sent reads).length then HEAD_TOO_LONG else .closed) := by
  fun_induction readHead reads buf with
  | case1 reads buf hlong =>
      have hlength : buf.length = MAX_HEAD_LEN := Nat.le_antisymm hbuf hlong
      refine .inr ⟨?_, ?_⟩
      · rw [List.take_append_of_le_length hlong, ← hlength, List.take_length]
        exact hnone
      · rw [if_pos (by rw [List.length_append]; omega)]
  | case2 reads buf hshort refusal hread =>
      obtain ⟨hsent, hclosed⟩ | ⟨more, reads', hmore, -⟩ := readSome_prompt hprompt (not_le.mp hshort)
      · rw [hclosed] at hread
        rw [hsent, List.append_nil, if_neg hshort, List.take_of_length_le hbuf, ← Except.error.inj hread]
        exact .inr ⟨hnone, rfl⟩
      · rw [hmore] at hread
        cases hread
  | case3 reads buf searchedTo hshort buf' reads' hread at_ hfound =>
      obtain ⟨-, hclosed⟩ | ⟨more, reads'', hmore, hsent, hroom, hprompt'⟩ :=
        readSome_prompt hprompt (not_le.mp hshort)
      · rw [hclosed] at hread
        cases hread
      · rw [hmore] at hread
        obtain ⟨rfl, rfl⟩ := Prod.mk.inj (Except.ok.inj hread)
        have hstream : (buf ++ sent reads).take (buf ++ more).length = buf ++ more := by
          rw [hsent, ← List.append_assoc, List.take_left]
        rw [Occurrence.find_resume headEnd_ne_nil hnone, Occurrence.find_zero_eq_some_iff headEnd_ne_nil, ← hstream,
          Occurrence.first_take_iff headEnd_ne_nil] at hfound
        obtain ⟨hfirst, hle⟩ := hfound
        rw [← List.length_append] at hroom
        exact .inl ⟨at_, _, _, hfirst, hle.trans hroom, rfl, by rw [hsent, List.append_assoc], hle, hprompt'⟩
  | case4 reads buf searchedTo hshort buf' reads' hread hfound ih =>
      obtain ⟨-, hclosed⟩ | ⟨more, reads'', hmore, hsent, hroom, hprompt'⟩ :=
        readSome_prompt hprompt (not_le.mp hshort)
      · rw [hclosed] at hread
        cases hread
      · rw [hmore] at hread
        obtain ⟨rfl, rfl⟩ := Prod.mk.inj (Except.ok.inj hread)
        rw [Occurrence.find_resume headEnd_ne_nil hnone, Occurrence.find_zero_eq_none_iff headEnd_ne_nil] at hfound
        rw [← List.length_append] at hroom
        have hread := ih hprompt' hroom hfound
        rwa [List.append_assoc, ← hsent] at hread

/-- **A request is read as it was sent**: what is read is what the whole stream gives. -/
theorem readRequest_eq {Addr : Type} (peer : Addr) (maxBody : Nat) {reads : List Read} (hprompt : Prompt reads) :
    readRequest peer maxBody true reads = requestOf peer maxBody (sent reads) := by
  have hempty (i : Nat) : ¬ At HEAD_END [] i := by
    intro hat
    have hlength := hat.le_length headEnd_ne_nil
    exact absurd hlength (by simp [HEAD_END])
  rw [readRequest, requestOf]
  obtain ⟨at_, buf, reads', hfirst, hle, hread, hstream, hheld, hprompt'⟩ | ⟨hnone, hread⟩ :=
    @readHead_cases reads [] hprompt (Nat.zero_le MAX_HEAD_LEN) hempty
  · rw [List.nil_append] at hfirst hstream
    have hfound : find ((sent reads).take MAX_HEAD_LEN) HEAD_END 0 = some at_ :=
      (Occurrence.find_zero_eq_some_iff headEnd_ne_nil).mpr
        ((Occurrence.first_take_iff headEnd_ne_nil _).mpr ⟨hfirst, hle⟩)
    have hhead : buf.take at_ = (sent reads).take at_ := by
      rw [← hstream, List.take_append_of_le_length (by omega)]
    have hrest : (sent reads).drop (at_ + HEAD_END.length) = buf.drop (at_ + HEAD_END.length) ++ sent reads' := by
      rw [← hstream, List.drop_append_of_le_length hheld]
    rw [hread, hfound]
    show (parseHead (buf.take (at_ + HEAD_END.length - HEAD_END.length)) >>= _) =
      (parseHead ((sent reads).take at_) >>= _)
    rw [Nat.add_sub_cancel, hhead]
    refine congrArg _ (funext fun head => congrArg _ (funext fun length => ?_))
    simp only [Bool.not_true, Bool.and_false, Bool.false_eq_true, if_false, hrest]
    show (readBody length reads' ((buf.drop (at_ + HEAD_END.length)).take length) >>= _) = _
    rw [readBody_eq hprompt' (List.length_take_le _ _), take_append_take]
    by_cases hshort : (buf.drop (at_ + HEAD_END.length) ++ sent reads').length < length
    · rw [if_pos hshort, if_pos ((length_take_append_lt _ _).mpr hshort)]
      rfl
    · rw [if_neg hshort, if_neg fun h => hshort ((length_take_append_lt _ _).mp h)]
      rfl
  · rw [List.nil_append] at hnone hread
    rw [hread, (Occurrence.find_zero_eq_none_iff headEnd_ne_nil).mpr hnone]
    rfl

/-- The stream begins with a head, which ends at its first blank line, and the rest of it follows. -/
structure HeadOf (stream head rest : Bytes) : Prop where
  stream_eq : stream = head ++ (HEAD_END ++ rest)
  first : First HEAD_END stream head.length

theorem headOf_of_first {stream : Bytes} {at_ : Nat} (hfirst : First HEAD_END stream at_) :
    HeadOf stream (stream.take at_) (stream.drop (at_ + HEAD_END.length)) ∧ (stream.take at_).length = at_ := by
  have hle := hfirst.occurs.le_length headEnd_ne_nil
  have hlength : (stream.take at_).length = at_ := by
    rw [List.length_take]
    omega
  have hend : (stream.drop at_).take HEAD_END.length = HEAD_END := Occurrence.at_iff_take.mp hfirst.occurs
  refine ⟨⟨?_, by rwa [hlength]⟩, hlength⟩
  calc stream = stream.take at_ ++ stream.drop at_ := (List.take_append_drop at_ stream).symm
    _ = stream.take at_ ++ ((stream.drop at_).take HEAD_END.length ++ (stream.drop at_).drop HEAD_END.length) :=
        congrArg (stream.take at_ ++ ·) (List.take_append_drop _ _).symm
    _ = stream.take at_ ++ (HEAD_END ++ stream.drop (at_ + HEAD_END.length)) := by
        rw [hend, List.drop_drop]

/-- **What is read does not depend on how it arrives**, and is a request exactly when the stream begins with a
head of no more than the limits whose headers state a length, or none, and that many bytes follow it. The
limits of the servers' bodies are below the largest `u64`, which a longer number is read as. -/
theorem request_read_as_sent {Addr : Type} (peer : Addr) {maxBody : Nat} (hmax : maxBody < U64_MAX)
    {reads : List Read} (hprompt : Prompt reads) :
    (∀ reads', Prompt reads' → sent reads' = sent reads →
      readRequest peer maxBody true reads' = readRequest peer maxBody true reads) ∧
    ∀ request, readRequest peer maxBody true reads = .ok request ↔
      ∃ bytes rest head n, HeadOf (sent reads) bytes rest ∧ bytes.length + HEAD_END.length ≤ MAX_HEAD_LEN ∧
        parseHead bytes = .ok head ∧ head.headers.length ≤ MAX_HEADERS ∧
        headerValues head.headers "Transfer-Encoding" = [] ∧
        StatesLength (headerValues head.headers "Content-Length") n ∧
        (headerValues head.headers "Content-Length" = [] → n = 0) ∧ n ≤ maxBody ∧ n ≤ rest.length ∧
        request = { method := head.method, url := head.url, headers := head.headers, body := rest.take n, peer } := by
  refine ⟨fun reads' hprompt' hsent => ?_, fun request => ?_⟩
  · rw [readRequest_eq peer maxBody hprompt', readRequest_eq peer maxBody hprompt, hsent]
  · rw [readRequest_eq peer maxBody hprompt]
    generalize sent reads = stream
    rw [requestOf]
    constructor
    · intro hread
      split at hread
      · cases hread
      · rename_i at_ hfound
        rw [Occurrence.find_zero_eq_some_iff headEnd_ne_nil, Occurrence.first_take_iff headEnd_ne_nil] at hfound
        obtain ⟨hfirst, hle⟩ := hfound
        obtain ⟨hhead, hlength⟩ := headOf_of_first hfirst
        obtain ⟨head, hparse, hread⟩ := Gives.exists_of_bind hread
        obtain ⟨n, hn, hread⟩ := Gives.exists_of_bind hread
        obtain ⟨henough, hread⟩ := FailsIn.ok_of_guard hread
        obtain ⟨hcoded, hstates, hnone, hmaxBody⟩ := (contentLength_eq_ok_iff hmax).mp hn
        exact ⟨_, _, head, n, hhead, by rwa [hlength], hparse, length_headers_of_parseHead hparse, hcoded, hstates,
          hnone, hmaxBody, not_lt.mp henough, (Except.ok.inj hread).symm⟩
    · rintro ⟨bytes, rest, head, n, ⟨rfl, hfirst⟩, hle, hparse, -, hcoded, hstates, hnone, hmaxBody, henough, rfl⟩
      have hn := (contentLength_eq_ok_iff hmax).mpr ⟨hcoded, hstates, hnone, hmaxBody⟩
      rw [(Occurrence.find_zero_eq_some_iff headEnd_ne_nil).mpr
        ((Occurrence.first_take_iff headEnd_ne_nil _).mpr ⟨hfirst, hle⟩)]
      have hrest : (bytes ++ (HEAD_END ++ rest)).drop (bytes.length + HEAD_END.length) = rest := by
        rw [← List.drop_drop, List.drop_left, List.drop_left]
      simp only [List.take_left, hparse, hn, hrest, bind, Except.bind, if_neg (not_lt.mpr henough)]
      rfl

def postBytes : Bytes := stringBytes "POST /cmd HTTP/1.1\r\ncontent-length: 2"

theorem request_read_as_sent_split : ∃ request : Request Unit,
    readRequest () 1024 true [.bytes (postBytes ++ [0x0d, 0x0a, 0x0d]), .interrupted, .bytes [0x0a, 0x68],
      .bytes [0x69, 0x21]] = .ok request ∧
    readRequest () 1024 true [.bytes (postBytes ++ HEAD_END ++ [0x68, 0x69, 0x21])] = .ok request ∧
    request.body = [0x68, 0x69] := by
  have hsplit : Prompt [.bytes (postBytes ++ [0x0d, 0x0a, 0x0d]), .interrupted, .bytes [0x0a, 0x68],
      .bytes [0x69, 0x21]] := by
    simp [Prompt]
  have hwhole : Prompt [.bytes (postBytes ++ HEAD_END ++ [0x68, 0x69, 0x21])] := by
    simp [Prompt]
  obtain ⟨hsame, hread⟩ := @request_read_as_sent Unit () 1024 (by decide) _ hsplit
  have hparse : parseHead postBytes =
      .ok { method := .post, url := "/cmd", headers := [("content-length", "2")] } := by decide +kernel
  have hvalues : headerValues [("content-length", "2")] "Content-Length" = ["2"] := by decide +kernel
  have hstates : StatesLength ["2"] 2 := by
    intro value hvalue
    obtain rfl := List.mem_singleton.mp hvalue
    decide +kernel
  have hfirst : First HEAD_END (postBytes ++ (HEAD_END ++ [0x68, 0x69, 0x21])) postBytes.length :=
    (Occurrence.find_zero_eq_some_iff headEnd_ne_nil).mp (by decide +kernel)
  have hok := (hread _).mpr ⟨postBytes, [0x68, 0x69, 0x21], _, 2, ⟨by decide +kernel, hfirst⟩, by decide +kernel,
    hparse, by decide, by decide +kernel, by rw [hvalues]; exact hstates,
    fun hempty => absurd (hvalues.symm.trans hempty) (List.cons_ne_nil _ _), by decide, by decide, rfl⟩
  exact ⟨_, hok, (hsame _ hwhole (by decide +kernel)).trans hok, rfl⟩

end Ratum.Http
