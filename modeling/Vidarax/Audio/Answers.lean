import Vidarax.Audio.Sidecar
import Vidarax.Base.Result

/-!
# Every answer of the sidecar is the answer to its request

Package `vidarax-core`, `audio_sidecar.rs` 404–555. However writes, reads and connections fail, an
exchange that succeeds returns what the server answered to this very request, which it served once,
and leaves nothing behind on the connection for a later one.
-/

namespace Vidarax.Audio

open Base

variable {server : Server} {e : Exchange} {connection k : Nat} {more : Bytes}

/-! ### What the server reads -/

namespace Exchange

variable (e)

/-- The request in the words of the engine. -/
def task : Task :=
  match e.operation with
  | .analyze => .analyze e.audio e.profile.asStr e.speech_engine.asStr e.threshold.toNat
      e.max_events.toNat e.source_start_ms.toNat
  | .synthesize => .synthesize e.text

/-- The header as it is unpacked. -/
def header : RequestHeader where
  magic := REQUEST_MAGIC
  version := 1
  operation := e.operation.code.toNat
  profile_id := e.profile.code.toNat
  engine_id := e.speech_engine.code.toNat
  flags := e.flags.toNat
  reserved := 0
  source_start_ms := e.source_start_ms.toNat
  audio_len := e.audio.length
  text_len := e.text.length
  max_events := e.max_events.toNat
  threshold := e.threshold.toNat

theorem map_length_headerFields : e.headerFields.map List.length = REQUEST_HEADER := by
  simp [headerFields, REQUEST_HEADER, REQUEST_MAGIC]

theorem length_flatten_headerFields : e.headerFields.flatten.length = REQUEST_HEADER_BYTES := by
  rw [List.length_flatten, map_length_headerFields]
  rfl

/-- The request fits the lengths of its header. -/
structure Fits : Prop where
  audio : e.audio.length < 2 ^ 32
  text : e.text.length < 2 ^ 32

variable {e}

theorem ofBe_singleton (b : UInt8) : ofBe [b] = b.toNat := by
  simp [ofBe, ofLe]

/-- The server unpacks what the client packed. -/
theorem unpack_headerFields (h : e.Fits) :
    RequestHeader.unpack e.headerFields.flatten = e.header := by
  have hfields : fields REQUEST_HEADER e.headerFields.flatten = e.headerFields := by
    have hflatten := fields_flatten e.headerFields []
    rwa [List.append_nil, map_length_headerFields] at hflatten
  have hflags : e.flags.toNat < 256 ^ 2 := e.flags.toNat_lt
  have hsource : e.source_start_ms.toNat < 256 ^ 8 := e.source_start_ms.toNat_lt
  have hmax : e.max_events.toNat < 256 ^ 2 := e.max_events.toNat_lt
  have hthreshold : e.threshold.toNat < 256 ^ 2 := e.threshold.toNat_lt
  have haudio : e.audio.length < 256 ^ 4 := h.audio
  have htext : e.text.length < 256 ^ 4 := h.text
  rw [RequestHeader.unpack, hfields]
  simp only [headerFields, header, List.getD_cons_zero, List.getD_cons_succ, ofBe_singleton,
    ofBe_beBytes_of_lt hflags, ofBe_beBytes_of_lt hsource, ofBe_beBytes_of_lt hmax,
    ofBe_beBytes_of_lt hthreshold, ofBe_beBytes_of_lt haudio, ofBe_beBytes_of_lt htext]
  rfl

theorem profileName_code (profile : AudioProfile) :
    profileName profile.code.toNat = some profile.asStr := by
  cases profile <;> rfl

theorem engineName_code (engine : SpeechEngine) :
    engineName engine.code.toNat = some engine.asStr := by
  cases engine <;> rfl

/-- The engine is asked what the client asks. -/
theorem task_header : e.header.task e.audio e.text = e.task := by
  rw [RequestHeader.task, task]
  cases hoperation : e.operation with
  | analyze =>
    rw [if_pos (show e.header.operation = 1 by rw [header, hoperation]; rfl)]
    simp only [header, profileName_code, engineName_code, Option.getD_some]
  | synthesize =>
    have hcode : Operation.synthesize.code.toNat ≠ 1 := by decide
    rw [if_neg (show e.header.operation ≠ 1 by rw [header, hoperation]; exact hcode)]

end Exchange

/-- The whole response was sent, or an error in its place. -/
def Served.Whole : Served → Prop
  | .answered _ (.cut ..) => False
  | .refused _ | .answered .. => True

namespace Server

theorem handle_nil : server.handle connection k [] = [] := by
  rw [handle, if_pos (by decide)]

/-- What was served stays so, whatever arrives later. -/
theorem handle_prefix (bytes : Bytes) :
    server.handle connection k bytes <+: server.handle connection k (bytes ++ more) := by
  fun_induction handle server connection k bytes with
  | case1 => exact List.nil_prefix
  | case2 k bytes hlong h message hrefusal =>
    have hlong' : ¬ (bytes ++ more).length < REQUEST_HEADER_BYTES := by
      rw [List.length_append]
      omega
    rw [handle, if_neg hlong', List.take_append_of_le_length (Nat.not_lt.mp hlong)]
    simp only [hrefusal, h, List.prefix_rfl]
  | case3 => exact List.nil_prefix
  | case4 k bytes hlong h hrefusal body henough task reply ih =>
    have hlong' : ¬ (bytes ++ more).length < REQUEST_HEADER_BYTES := by
      rw [List.length_append]
      omega
    have hbody : (bytes ++ more).drop REQUEST_HEADER_BYTES = body ++ more :=
      List.drop_append_of_le_length (Nat.not_lt.mp hlong)
    have henough' : ¬ (body ++ more).length < h.audio_len + h.text_len := by
      rw [List.length_append]
      omega
    have hlengths : h.audio_len + h.text_len ≤ body.length := Nat.not_lt.mp henough
    have haudio : (body ++ more).take h.audio_len = body.take h.audio_len :=
      List.take_append_of_le_length (by omega)
    have htext : ((body ++ more).drop h.audio_len).take h.text_len =
        (body.drop h.audio_len).take h.text_len := by
      rw [List.drop_append_of_le_length (by omega),
        List.take_append_of_le_length (by rw [List.length_drop]; omega)]
    rw [handle.eq_def server connection k (bytes ++ more), if_neg hlong',
      List.take_append_of_le_length (Nat.not_lt.mp hlong), hbody]
    simp only [h, hrefusal]
    rw [if_neg henough', haudio, htext, List.drop_append_of_le_length hlengths,
      List.prefix_cons_inj]
    change (if reply.closes then [] else server.handle connection (k + 1)
        (body.drop (h.audio_len + h.text_len))) <+:
      if reply.closes then [] else server.handle connection (k + 1)
        (body.drop (h.audio_len + h.text_len) ++ more)
    split
    · exact List.nil_prefix
    · exact ih

variable (server connection k more) in
/-- The server reads one whole request, and then what comes behind it. -/
theorem handle_wire (h : e.Fits) : server.handle connection k (e.wire ++ more) =
    match e.header.refusal with
    | some message => [.refused message]
    | none => .answered e.task (server.answers connection k e.task) ::
        if (server.answers connection k e.task).closes then []
        else server.handle connection (k + 1) more := by
  have hlength := e.length_flatten_headerFields
  have hbytes : e.wire ++ more = e.headerFields.flatten ++ (e.audio ++ (e.text ++ more)) := by
    rw [Exchange.wire, List.append_assoc, List.append_assoc]
  have hraw : (e.wire ++ more).take REQUEST_HEADER_BYTES = e.headerFields.flatten := by
    rw [hbytes, ← hlength, List.take_left]
  have hbody : (e.wire ++ more).drop REQUEST_HEADER_BYTES = e.audio ++ (e.text ++ more) := by
    rw [hbytes, ← hlength, List.drop_left]
  have hlong : ¬ (e.wire ++ more).length < REQUEST_HEADER_BYTES := by
    rw [hbytes, List.length_append, hlength]
    exact Nat.not_lt.mpr (Nat.le_add_right ..)
  rw [handle, if_neg hlong, hraw, hbody, Exchange.unpack_headerFields h]
  have henough :
      ¬ (e.audio ++ (e.text ++ more)).length < e.header.audio_len + e.header.text_len := by
    rw [List.length_append, List.length_append]
    exact Nat.not_lt.mpr (Nat.add_le_add_left (Nat.le_add_right ..) _)
  have haudio : (e.audio ++ (e.text ++ more)).take e.header.audio_len = e.audio := List.take_left ..
  have htext : ((e.audio ++ (e.text ++ more)).drop e.header.audio_len).take e.header.text_len =
      e.text := by
    rw [show (e.audio ++ (e.text ++ more)).drop e.header.audio_len = e.text ++ more from
      List.drop_left ..]
    exact List.take_left ..
  have hrest : (e.audio ++ (e.text ++ more)).drop (e.header.audio_len + e.header.text_len) =
      more := by
    rw [← List.append_assoc]
    exact List.drop_left' (List.length_append ..)
  cases hrefusal : e.header.refusal with
  | some message => simp only [hrefusal]
  | none =>
    simp only [hrefusal, if_neg henough, haudio, htext, hrest, Exchange.task_header]

/-- Without time-outs every answer is whole. -/
theorem whole_of_answers (h : ∀ connection k task, (Served.answered task
    (server.answers connection k task)).Whole) (bytes : Bytes) :
    ∀ s ∈ server.handle connection k bytes, s.Whole := by
  fun_induction handle server connection k bytes with
  | case1 => simp
  | case2 => simp [Served.Whole]
  | case3 => simp
  | case4 k bytes hlong h' hrefusal body henough task reply ih =>
    rw [List.forall_mem_cons]
    refine ⟨h connection k task, ?_⟩
    split
    · simp
    · exact ih

end Server

/-! ### What the client reads -/

section Read

variable {status : UInt8} {metadata audio metadata' audio' body : Bytes} {n length : Nat}

variable (status metadata audio) in
theorem map_length_responseFields :
    (responseFields status metadata audio).map List.length = RESPONSE_HEADER := by
  simp [responseFields, RESPONSE_HEADER, RESPONSE_MAGIC]

variable (status metadata audio) in
theorem length_flatten_responseFields :
    (responseFields status metadata audio).flatten.length = RESPONSE_HEADER_BYTES := by
  rw [List.length_flatten, map_length_responseFields]
  rfl

theorem length_response : (response status metadata audio).length =
    RESPONSE_HEADER_BYTES + (metadata.length + audio.length) := by
  rw [response, List.length_append, length_flatten_responseFields, List.length_append]

/-- How the client reads behind a header that the server wrote. -/
theorem readResponse_flatten :
    readResponse ((responseFields status metadata audio).flatten ++ body) =
      let metadata_len := ofBe (beBytes 4 metadata.length)
      let audio_len := ofBe (beBytes 4 audio.length)
      if metadata_len > MAX_AUDIO_METADATA_BYTES then .error (.protocol "metadata exceeds limit")
      else if audio_len > MAX_SYNTHESIZED_AUDIO_BYTES then
        .error (.protocol "audio response exceeds limit")
      else if body.length < metadata_len + audio_len then .error .io
      else if status.toNat ≠ 0 then .error (.sidecarStatus status.toNat (body.take metadata_len))
      else .ok (body.take metadata_len, (body.drop metadata_len).take audio_len,
        RESPONSE_HEADER_BYTES + (metadata_len + audio_len)) := by
  have hlength := length_flatten_responseFields status metadata audio
  have hlong : ¬ ((responseFields status metadata audio).flatten ++ body).length <
      RESPONSE_HEADER_BYTES := by
    rw [List.length_append, hlength]
    exact Nat.not_lt.mpr (Nat.le_add_right ..)
  have hfields : fields RESPONSE_HEADER ((responseFields status metadata audio).flatten ++ body) =
      responseFields status metadata audio := by
    rw [← map_length_responseFields, fields_flatten]
  have hbody : ((responseFields status metadata audio).flatten ++ body).drop RESPONSE_HEADER_BYTES =
      body := by
    rw [← hlength, List.drop_left]
  rw [readResponse, if_neg hlong]
  simp only [hfields, hbody]
  simp only [responseFields, List.getD_cons_zero, List.getD_cons_succ, Exchange.ofBe_singleton,
    ne_eq, not_true_eq_false, if_false]

/-- A response that is read as one is a success, and is read as it was sent. -/
theorem readResponse_response
    (hread : readResponse ((response status metadata audio).take n) =
      .ok (metadata', audio', length)) :
    status = 0 ∧ (metadata.length < 256 ^ 4 → audio.length < 256 ^ 4 → metadata' = metadata ∧
      audio' = audio ∧ length = (response status metadata audio).length) := by
  have hn : RESPONSE_HEADER_BYTES ≤ n := by
    by_contra hn
    have hshort : ((response status metadata audio).take n).length < RESPONSE_HEADER_BYTES := by
      rw [List.length_take]
      omega
    rw [readResponse, if_pos hshort] at hread
    cases hread
  rw [response, List.take_append, length_flatten_responseFields,
    List.take_of_length_le (by rw [length_flatten_responseFields]; exact hn),
    readResponse_flatten] at hread
  dsimp only at hread
  obtain ⟨-, hread⟩ := guard_eq_ok hread
  obtain ⟨-, hread⟩ := guard_eq_ok hread
  obtain ⟨hlong, hread⟩ := guard_eq_ok hread
  obtain ⟨hstatus, hread⟩ := guard_eq_ok hread
  refine ⟨UInt8.toNat_inj.mp (not_not.mp hstatus), fun hmetadata haudio ↦ ?_⟩
  rw [ofBe_beBytes_of_lt hmetadata, ofBe_beBytes_of_lt haudio] at hlong hread
  have hwhole : (metadata ++ audio).take (n - RESPONSE_HEADER_BYTES) = metadata ++ audio := by
    apply List.take_of_length_le
    rw [List.length_take, List.length_append] at hlong
    rw [List.length_append]
    omega
  rw [hwhole, List.take_left, List.drop_left, List.take_length] at hread
  cases hread
  exact ⟨rfl, rfl, length_response.symm⟩

/-- A success is read once it has arrived. -/
theorem readResponse_success (output : Output)
    (harrived : (response 0 output.metadata output.audio).length ≤ n) :
    readResponse ((response 0 output.metadata output.audio).take n) =
      .ok (output.metadata, output.audio, (response 0 output.metadata output.audio).length) := by
  have hmetadata : output.metadata.length < 256 ^ 4 :=
    Nat.lt_of_le_of_lt output.le_metadata (by simp [MAX_AUDIO_METADATA_BYTES])
  have haudio : output.audio.length < 256 ^ 4 :=
    Nat.lt_of_le_of_lt output.le_audio (by simp [MAX_SYNTHESIZED_AUDIO_BYTES])
  rw [List.take_of_length_le harrived, length_response, response, readResponse_flatten]
  dsimp only
  rw [ofBe_beBytes_of_lt hmetadata, ofBe_beBytes_of_lt haudio,
    if_neg (Nat.not_lt.mpr output.le_metadata), if_neg (Nat.not_lt.mpr output.le_audio),
    if_neg (by rw [List.length_append]; exact Nat.lt_irrefl _), if_neg (by simp), List.take_left,
    List.drop_left, List.take_length]

end Read

/-! ### A whole exchange -/

namespace Connection

/-- What the server did with the requests of a connection. -/
def served (server : Server) (conn : Connection) : List Served :=
  server.handle conn.id 0 conn.sent

/-- Between two exchanges the server waits for a request, and the client has read every answer. -/
structure Settled (server : Server) (conn : Connection) : Prop where
  waits : ∀ more, server.handle conn.id 0 (conn.sent ++ more) =
    conn.served server ++ server.handle conn.id (conn.served server).length more
  read : conn.read = (server.responses conn.id conn.sent).length

theorem settled_new (server : Server) (id : Nat) : Settled server ⟨id, [], 0⟩ where
  waits more := by simp [served, Server.handle_nil]
  read := by simp [Server.responses, Server.handle_nil]

variable {conn : Connection} {metadata audio : Bytes} {n length : Nat}

/-- A request on a settled connection that succeeds has its own answer, and leaves the connection
settled. -/
theorem Settled.exchange (h : Settled server conn) (hfits : e.Fits)
    (hwhole : ∀ s ∈ server.handle conn.id 0 (conn.sent ++ e.wire), s.Whole)
    (hread : readResponse (((server.responses conn.id (conn.sent ++ e.wire)).drop
      conn.read).take n) = .ok (metadata, audio, length)) :
    ∃ output : Output, output.metadata = metadata ∧ output.audio = audio ∧
      server.handle conn.id 0 (conn.sent ++ e.wire) =
        conn.served server ++ [.answered e.task (.respond output)] ∧
      Settled server ⟨conn.id, conn.sent ++ e.wire, conn.read + length⟩ := by
  have hserved := h.waits e.wire
  have hanswer := server.handle_wire conn.id (conn.served server).length [] hfits
  rw [List.append_nil] at hanswer
  have hresponses : (server.responses conn.id (conn.sent ++ e.wire)).drop conn.read =
      (server.handle conn.id (conn.served server).length e.wire).flatMap server.emitted := by
    rw [Server.responses, hserved, List.flatMap_append, h.read]
    exact List.drop_left ..
  rw [hresponses, hanswer] at hread
  cases hrefusal : e.header.refusal with
  | some message =>
    simp only [hrefusal, List.flatMap_cons, List.flatMap_nil, List.append_nil,
      Server.emitted] at hread
    have hstatus := (readResponse_response hread).1
    cases hstatus
  | none =>
    simp only [hrefusal, Server.handle_nil, ite_self] at hread hanswer
    simp only [List.flatMap_cons, List.flatMap_nil, List.append_nil, Server.emitted] at hread
    rw [hserved, hanswer] at hwhole
    cases hreply : server.answers conn.id (conn.served server).length e.task with
    | cut output sent payload =>
      rw [hreply] at hwhole
      exact (hwhole _ (List.mem_append_right _ (List.mem_singleton_self _))).elim
    | fail status payload closes =>
      rw [hreply] at hread
      have hstatus := (readResponse_response hread).1
      cases status <;> cases hstatus
    | respond output =>
      rw [hreply] at hread hanswer
      have hmetadata : output.metadata.length < 256 ^ 4 :=
        Nat.lt_of_le_of_lt output.le_metadata (by simp [MAX_AUDIO_METADATA_BYTES])
      have haudio : output.audio.length < 256 ^ 4 :=
        Nat.lt_of_le_of_lt output.le_audio (by simp [MAX_SYNTHESIZED_AUDIO_BYTES])
      obtain ⟨rfl, rfl, rfl⟩ := (readResponse_response hread).2 hmetadata haudio
      rw [hanswer] at hserved
      refine ⟨output, rfl, rfl, hserved, ⟨fun more ↦ ?_, ?_⟩⟩
      · dsimp only [served]
        rw [List.append_assoc, h.waits, server.handle_wire _ _ _ hfits, hserved]
        simp [hrefusal, hreply, Reply.closes]
      · rw [Server.responses, hserved, List.flatMap_append, List.length_append, h.read]
        simp [Server.responses, served, Server.emitted, Reply.bytes]

end Connection

/-! ### Every run of a client -/

namespace Client

/-- The clients that exchanges leave, whatever they met. -/
inductive Reachable (server : Server) : Client → Prop where
  | new : Reachable server new
  | exchange {c : Client} (e : Exchange) (w : Conditions) (h : Reachable server c) :
      Reachable server (c.exchange server e w).1

variable {c c' : Client} {w : Conditions} {conn : Connection} {metadata audio : Bytes}
  {result : Except SidecarError (Bytes × Bytes)}

/-- The connection that an exchange uses. -/
def used (c : Client) : Connection := c.stream.getD ⟨c.connections, [], 0⟩

theorem connection_ok (h : c.connection w = .ok conn) : conn = c.used := by
  unfold connection at h
  unfold used
  split at h
  next stream hstream =>
    cases h
    rw [hstream, Option.getD_some]
  next hstream =>
    split at h <;> cases h
    rw [hstream, Option.getD_none]

/-- What an exchange that succeeds did on its connection. -/
theorem exchangeInner_ok (h : c.exchangeInner server e w = .ok (conn, metadata, audio)) :
    e.Fits ∧ ∃ length,
      readResponse (((server.responses c.used.id (c.used.sent ++ e.wire)).drop c.used.read).take
        w.arrived) = .ok (metadata, audio, length) ∧
      conn = ⟨c.used.id, c.used.sent ++ e.wire, c.used.read + length⟩ := by
  unfold exchangeInner at h
  split at h
  · cases h
  next haudio =>
  split at h
  · cases h
  next htext =>
  obtain ⟨stream, hstream, h⟩ := bind_eq_ok h
  split at h
  · cases h
  obtain ⟨⟨metadata', audio', length⟩, hread, h⟩ := bind_eq_ok h
  cases connection_ok hstream
  cases h
  exact ⟨⟨Nat.not_le.mp haudio, Nat.not_le.mp htext⟩, length, hread, rfl⟩

/-- An exchange keeps the connection that succeeded, drops the one that failed, or has waited. -/
theorem exchange_cases (h : c.exchange server e w = (c', result)) :
    (∃ metadata audio, result = .ok (metadata, audio) ∧ ∃ conn,
      c.exchangeInner server e w = .ok (conn, metadata, audio) ∧ c'.stream = some conn) ∨
    (∃ error, result = .error error) ∧ (c'.stream = none ∨ c' = c) := by
  unfold exchange at h
  split at h
  · cases h
    exact .inr ⟨⟨_, rfl⟩, .inr rfl⟩
  · dsimp only at h
    split at h
    next conn metadata audio hinner =>
      cases h
      exact .inl ⟨metadata, audio, rfl, conn, hinner, rfl⟩
    next error _ =>
      cases h
      exact .inr ⟨⟨error, rfl⟩, .inl rfl⟩

/-- The answers before a request stay whole. -/
theorem whole_of_append
    (hwhole : ∀ s ∈ server.handle conn.id 0 (conn.sent ++ e.wire), s.Whole) :
    ∀ s ∈ conn.served server, s.Whole :=
  fun s hs ↦ hwhole s ((server.handle_prefix conn.sent).mem hs)

/-- The connection that is used is settled where the one that was kept is. -/
theorem settled_used
    (h : ∀ conn, c.stream = some conn → (∀ s ∈ conn.served server, s.Whole) → conn.Settled server)
    (hwhole : ∀ s ∈ c.used.served server, s.Whole) : c.used.Settled server := by
  unfold used at hwhole ⊢
  cases hstream : c.stream with
  | some conn =>
    rw [hstream] at hwhole
    exact h conn hstream hwhole
  | none => exact Connection.settled_new ..

/-- A connection on which every answer was whole is settled. -/
theorem Reachable.settled (h : Reachable server c) (hstream : c.stream = some conn)
    (hwhole : ∀ s ∈ conn.served server, s.Whole) : conn.Settled server := by
  induction h generalizing conn with
  | new => cases hstream
  | @exchange c e w _ ih =>
    generalize houtcome : c.exchange server e w = outcome at hstream
    obtain ⟨c', result⟩ := outcome
    obtain ⟨metadata, audio, -, conn', hinner, hkept⟩ | ⟨-, hdropped | rfl⟩ :=
      exchange_cases houtcome
    · rw [hkept, Option.some.injEq] at hstream
      obtain ⟨hfits, length, hread, rfl⟩ := exchangeInner_ok hinner
      subst hstream
      have hused : c.used.Settled server :=
        settled_used (fun conn hconn hwhole ↦ ih hconn hwhole) (whole_of_append hwhole)
      obtain ⟨output, -, -, -, hsettled⟩ := hused.exchange hfits hwhole hread
      exact hsettled
    · rw [hdropped] at hstream
      cases hstream
    · exact ih hstream hwhole

/-- In every run of a client, an exchange that succeeds returns what the server answered to this
very request, the last that it served on the connection, and leaves nothing to be read; or the
server has timed out within an answer on this connection. -/
theorem exchange_answered (h : Reachable server c)
    (hok : c.exchange server e w = (c', .ok (metadata, audio))) :
    ∃ conn, c'.stream = some conn ∧ conn.sent = c.used.sent ++ e.wire ∧
      ((∀ s ∈ conn.served server, s.Whole) → ∃ output : Output, output.metadata = metadata ∧
        output.audio = audio ∧
        conn.served server = c.used.served server ++ [.answered e.task (.respond output)] ∧
        conn.read = (server.responses conn.id conn.sent).length) := by
  obtain ⟨metadata', audio', hresult, conn, hinner, hkept⟩ | ⟨⟨error, herror⟩, -⟩ :=
    exchange_cases hok
  · cases hresult
    obtain ⟨hfits, length, hread, rfl⟩ := exchangeInner_ok hinner
    refine ⟨_, hkept, rfl, fun hwhole ↦ ?_⟩
    have hused : c.used.Settled server :=
      settled_used (fun conn hconn ↦ h.settled hconn) (whole_of_append hwhole)
    obtain ⟨output, hmetadata, haudio, hserved, hsettled⟩ := hused.exchange hfits hwhole hread
    exact ⟨output, hmetadata, haudio, hserved, hsettled.read⟩
  · cases herror

/-- On a settled connection that carries the request and its answer, an exchange returns what the
server answers. -/
theorem exchange_succeeds {output : Output} (hused : c.used.Settled server)
    (hretry : ¬ c.retry_after.any (w.now < ·)) (hconnect : c.stream ≠ none ∨ w.connects)
    (hfits : e.Fits) (hrefusal : e.header.refusal = none) (hwritten : e.wire.length ≤ w.written)
    (hreply : server.answers c.used.id (c.used.served server).length e.task = .respond output)
    (harrived : (response 0 output.metadata output.audio).length ≤ w.arrived) :
    (c.exchange server e w).2 = .ok (output.metadata, output.audio) := by
  have hconnection : c.connection w = .ok c.used := by
    unfold connection used
    cases hstream : c.stream with
    | some stream => rfl
    | none => exact if_pos (hconnect.resolve_left (not_not.mpr hstream))
  have hbrings : (server.responses c.used.id (c.used.sent ++ e.wire)).drop c.used.read =
      response 0 output.metadata output.audio := by
    have hanswer := server.handle_wire c.used.id (c.used.served server).length [] hfits
    simp only [List.append_nil, hrefusal, hreply, Server.handle_nil, ite_self] at hanswer
    rw [Server.responses, hused.waits, List.flatMap_append, hused.read, hanswer]
    simp [Server.responses, Connection.served, Server.emitted, Reply.bytes]
  have hinner : c.exchangeInner server e w = .ok
      (⟨c.used.id, c.used.sent ++ e.wire,
        c.used.read + (response 0 output.metadata output.audio).length⟩,
        output.metadata, output.audio) := by
    unfold exchangeInner
    rw [if_neg (Nat.not_le.mpr hfits.audio), if_neg (Nat.not_le.mpr hfits.text), hconnection,
      ok_bind, if_neg (Nat.not_lt.mpr hwritten)]
    dsimp only
    rw [hbrings, readResponse_success output harrived]
    rfl
  rw [exchange, if_neg hretry, hinner]

end Client

/-! ### A client that asks once -/

/-- A result of one byte. -/
def sampleOutput : Output where
  metadata := [7]
  audio := []
  le_metadata := by simp [MAX_AUDIO_METADATA_BYTES]
  le_audio := Nat.zero_le _

/-- A server with one answer. -/
def sampleServer : Server where
  answers _ _ _ := .respond sampleOutput
  pack _ := []

/-- A clip of three bytes. -/
def sampleExchange : Exchange where
  operation := .analyze
  profile := .general
  speech_engine := .auto
  flags := 0
  source_start_ms := 5
  threshold := 100
  max_events := 8
  audio := [1, 2, 3]
  text := []

/-- Enough for one exchange. -/
def sampleConditions : Conditions where
  now := 0
  later := 1
  connects := true
  written := 35
  arrived := 17

theorem new_exchange_sample :
    (Client.new.exchange sampleServer sampleExchange sampleConditions).2 = .ok ([7], []) := by
  have hreply : sampleServer.answers Client.new.used.id (Client.new.used.served sampleServer).length
      sampleExchange.task = .respond sampleOutput := rfl
  exact Client.exchange_succeeds (Connection.settled_new _ _) (by decide) (.inr rfl)
    ⟨by decide, by decide⟩ (by decide) (by decide) hreply (by decide)

/-- A new client is answered by a server that was asked once. -/
theorem exchange_answered_sample :
    ∃ conn,
      (Client.new.exchange sampleServer sampleExchange sampleConditions).1.stream = some conn ∧
      conn.served sampleServer = [.answered sampleExchange.task (.respond sampleOutput)] := by
  obtain ⟨conn, hstream, hsent, hanswered⟩ :=
    Client.exchange_answered .new (Prod.ext rfl new_exchange_sample)
  obtain ⟨output, hmetadata, haudio, hserved, -⟩ :=
    hanswered (sampleServer.whole_of_answers (fun _ _ _ ↦ trivial) _)
  have houtput : output = sampleOutput := by
    cases output
    cases hmetadata
    cases haudio
    rfl
  refine ⟨conn, hstream, ?_⟩
  rw [hserved, houtput, Connection.served]
  change sampleServer.handle 0 0 [] ++ _ = _
  rw [Server.handle_nil, List.nil_append]

end Vidarax.Audio
