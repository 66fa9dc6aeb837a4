import DealerBot.Properties.Pipelining
import DealerBot.Properties.Provenance
import DealerBot.Restinio.ResponseBuilder

/-!
# What a Client Reads

An application that answers with response builders, and the client at the other end of
the connection, who reads one response after the other.

- `built_response_read`: a client reads from a response what the builder was told
- `client_reads_inOrder`: from all bytes that a connection has written, at any time and
  wherever the writing broke off, a client reads the responses to the first requests, in
  order and as they were built
-/

namespace DealerBot.Restinio

open Foundations Connection

variable {Req : Type} {P : HttpParser Req} {app : Application Req} {cfg : ConnectionSettings}

/-! ## §1 One response -/

namespace ResponseBuilder

/-- A response that a client understands: its header is clean, and it has no body where
    there cannot be one. -/
structure Readable (b : ResponseBuilder) (body : Bytes) : Prop where
  clean : b.header.Clean
  bodyless : b.header.isBodyless = true → body = []

variable {b : ResponseBuilder} {id : UInt32} {body : Bytes}

theorem Readable.finalHeader (h : b.Readable body) : b.finalHeader.Clean :=
  ⟨h.clean.httpMajor, h.clean.httpMinor, h.clean.statusCode, h.clean.reasonPhrase,
    h.clean.fields, h.clean.notReserved⟩

/-- The length that a client finds in the header is that of the body. -/
theorem Holds.bodyLength (h : b.Holds id body) (hr : b.Readable body) :
    (b.finalHeader.head hr.finalHeader).bodyLength = some body.length := by
  have hlength : b.finalHeader.contentLength = body.length := h.bodySize
  rw [HttpResponseHeader.bodyLength_head hr.finalHeader, hlength]
  intro hless
  rw [hlength, hr.bodyless hless, List.length_nil]

/-- The response as a client has it. -/
def response (h : b.Holds id body) (hr : b.Readable body) : Http.Response :=
  ⟨(b.finalHeader.head hr.finalHeader, body), h.bodyLength hr⟩

/-- What is written for the response is what `done()` hands over. -/
theorem write_response (h : b.Holds id body) (hr : b.Readable body) :
    Http.response.write (response h hr) = createHeaderString b.finalHeader ++ body := by
  rw [HttpResponseHeader.createHeaderString_eq hr.finalHeader]
  rfl

/-- The connection is told to stay open iff the client is. -/
theorem responseConnectionAttr_iff (b : ResponseBuilder) :
    responseConnectionAttr b.header.shouldKeepAlive = .connectionKeepalive ↔
      b.header.connection = .keepAlive := by
  rw [HttpResponseHeader.shouldKeepAlive]
  cases b.header.connection <;> decide

/-- From what `done()` hands over, a client reads the header and the body. -/
theorem Holds.done_read (h : b.Holds id body) (hr : b.Readable body) (wscb : Option Nat) :
    ∃ b' parts m, b.done wscb = .ok (b', parts) ∧ (∀ w, b'.done w = .error .doneTwice) ∧
      parts.requestId = id ∧ parts.responseOutputFlags.responseParts = .finalParts ∧
      (∀ rest, Http.response.read (parts.wg.bytes ++ rest) = some (m, rest)) ∧
      parts.wg.bytes.take parts.wg.statusLineSize = m.1.1.statusLine.text ∧
      (m.1.1.statusLine.code : Nat) = b.header.statusLine.statusCode.toNat ∧
      m.1.1.fields.map (fun f => (⟨f.name, f.value⟩ : HttpHeaderField)) =
        ⟨ascii "Connection".toList, b.header.connection.text⟩ ::
        ⟨ascii "Content-Length".toList, Http.decimal body.length⟩ :: b.header.fields ∧
      m.1.2 = body ∧
      m.1.1.values "connection" = [b.header.connection.text] ∧
      (parts.responseOutputFlags.responseConnection = .connectionKeepalive ↔
        b.header.connection = .keepAlive) := by
  obtain ⟨b', parts, hdone, hused, hid, hflags, hbytes, -, hsize⟩ := h.done wscb
  -- what `done` hands over is the text of a response, so it can be read back
  have hwrite := write_response h hr
  refine ⟨b', parts, response h hr, hdone, ?_, hid, ?_, ?_, ?_, rfl, ?_, rfl,
    (HttpResponseHeader.values_head hr.finalHeader).1, ?_⟩
  · intro w
    rw [ResponseBuilder.done, hused, if_neg Bool.false_ne_true]
  · rw [hflags]
  · intro rest
    rw [hbytes, ← hwrite, Http.response.read_write]
  · rw [hbytes, hsize, createHeaderString]
    simp only [List.append_assoc, List.take_left]
    exact (HttpResponseHeader.statusLine_text hr.finalHeader).symm
  · simp only [response, HttpResponseHeader.head, List.map_cons, List.map_pmap]
    rw [List.pmap_eq_map, List.map_id']
    simp only [HttpResponseHeader.connectionField, HttpResponseHeader.contentLengthField]
    rw [← h.bodySize]
    rfl
  · rw [hflags, responseConnectionAttr_iff]

/-- **A client reads what was built.** After any calls that leave the header clean,
    `done()` succeeds once. From what it hands to the connection, a client reads the
    status, the fields and the body, whatever follows; the end of the response is where
    the builder put it. The client is told to keep the connection iff the connection is
    kept. -/
theorem built_response_read {statusLine : HttpStatusLine} {keepAlive : Bool}
    {calls : List BuilderCall} (hcalls : (new statusLine id keepAlive).run calls = b)
    (hreadable : b.Readable (bodyOf calls)) (wscb : Option Nat) :
    ∃ b' parts m, b.done wscb = .ok (b', parts) ∧ (∀ w, b'.done w = .error .doneTwice) ∧
      parts.requestId = id ∧ parts.responseOutputFlags.responseParts = .finalParts ∧
      (∀ rest, Http.response.read (parts.wg.bytes ++ rest) = some (m, rest)) ∧
      parts.wg.bytes.take parts.wg.statusLineSize = m.1.1.statusLine.text ∧
      (m.1.1.statusLine.code : Nat) = b.header.statusLine.statusCode.toNat ∧
      m.1.1.fields.map (fun f => (⟨f.name, f.value⟩ : HttpHeaderField)) =
        ⟨ascii "Connection".toList, b.header.connection.text⟩ ::
        ⟨ascii "Content-Length".toList, Http.decimal (bodyOf calls).length⟩ ::
        b.header.fields ∧
      m.1.2 = bodyOf calls ∧
      m.1.1.values "connection" = [b.header.connection.text] ∧
      (parts.responseOutputFlags.responseConnection = .connectionKeepalive ↔
        b.header.connection = .keepAlive) := by
  -- the calls leave the builder with the body they describe
  have hholds := holds_run_new statusLine id keepAlive calls
  rw [hcalls] at hholds
  exact hholds.done_read hreadable wscb

/-- A page in two pieces. -/
def pageCalls : List BuilderCall :=
  [.appendHeader (ascii "Server".toList) (ascii "RESTinio".toList),
    .setBody (.trivial (ascii "<p>".toList)), .appendBody (.trivial (ascii "Hi".toList))]

def pageHeader : HttpResponseHeader where
  connection := .keepAlive
  fields := [⟨ascii "Server".toList, ascii "RESTinio".toList⟩]
  statusLine := ⟨200, ascii "OK".toList⟩

theorem pageCalls_readable (id : UInt32) :
    ((new ⟨200, ascii "OK".toList⟩ id true).run pageCalls).Readable (bodyOf pageCalls) := by
  have hheader : ((new ⟨200, ascii "OK".toList⟩ id true).run pageCalls).header = pageHeader := rfl
  refine ⟨?_, ?_⟩
  · rw [hheader]
    exact ⟨by decide, by decide, by decide, List.all_iff_forall_prop.mp (by decide),
      List.all_iff_forall_prop.mp (by decide), List.all_iff_forall_prop.mp (by decide)⟩
  · rw [hheader]
    decide

theorem built_response_read_page : ∃ b' parts m,
    ((new ⟨200, ascii "OK".toList⟩ 0 true).run pageCalls).done none = .ok (b', parts) ∧
      (∀ rest, Http.response.read (parts.wg.bytes ++ rest) = some (m, rest)) ∧
      m.1.2 = ascii "<p>Hi".toList :=
  have ⟨b', parts, m, hdone, _, _, _, hread, _, _, _, hbody, _⟩ :=
    built_response_read rfl (pageCalls_readable 0) none
  ⟨b', parts, m, hdone, hread, hbody⟩

end ResponseBuilder

/-! ## §2 Whole responses -/

section Provenance

variable {Q : ResponseParts → Prop} {c : Connection P}

variable (Q) in
/-- The responses given so far are whole: one piece for each request that has one, given
    with the id of the request. -/
def Answered (os : List (Output Req)) : Prop :=
  ∀ i lane, (history os)[i]? = some lane → lane = .fresh ∨
    ∃ parts, Q parts ∧ parts.requestId = UInt32.ofNat i ∧ .partsAppended parts ∈ os ∧
      lane = ⟨parts.wg.bytes, true⟩

namespace Answered

variable {os os' : List (Output Req)}

/-- Outputs that are about neither requests nor responses change nothing. -/
theorem unrecorded (h : Answered Q os) (hos' : ∀ o ∈ os', o.isUnrecorded = true) :
    Answered Q (os ++ os') := by
  intro i lane hlane
  rw [history_append_unrecorded hos'] at hlane
  rcases h i lane hlane with hfresh | ⟨parts, hparts, hid, hmem, heq⟩
  · exact Or.inl hfresh
  · exact Or.inr ⟨parts, hparts, hid, List.mem_append_left _ hmem, heq⟩

theorem request (h : Answered Q os) (n : Nat) (id : UInt32) (req : Req) :
    Answered Q (os ++ [.requestHandler n id req]) := by
  intro i lane hlane
  rw [history_concat_request, List.getElem?_append] at hlane
  split at hlane
  · rcases h i lane hlane with hfresh | ⟨parts, hparts, hid, hmem, heq⟩
    · exact Or.inl hfresh
    · exact Or.inr ⟨parts, hparts, hid, List.mem_append_left _ hmem, heq⟩
  · exact Or.inl (List.mem_singleton.mp (List.mem_of_getElem? hlane))

/-- The one piece arrives. -/
theorem respond (h : Answered Q os) {n : Nat} {parts : ResponseParts}
    (hhistory : history (os ++ [.partsAppended parts]) =
      (history os).modify n (.fill parts.wg.bytes true))
    (hopen : ∀ lane, (history os)[n]? = some lane → lane.closed = false)
    (hid : parts.requestId = UInt32.ofNat n) (hparts : Q parts) :
    Answered Q (os ++ [.partsAppended parts]) := by
  intro i lane hlane
  rw [hhistory, List.getElem?_modify] at hlane
  obtain ⟨old, hold, rfl⟩ := Option.map_eq_some_iff.mp hlane
  -- the lane was fresh, because it was open; all others stay as they were
  by_cases hi : n = i
  · subst hi
    rcases h n old hold with rfl | ⟨parts', -, -, -, rfl⟩
    · rw [if_pos rfl]
      exact Or.inr ⟨parts, hparts, hid, List.mem_append_right _ List.mem_cons_self, rfl⟩
    · cases hopen _ hold
  · rw [if_neg hi]
    rcases h i old hold with hfresh | ⟨parts', hparts', hid', hmem, heq⟩
    · exact Or.inl hfresh
    · exact Or.inr ⟨parts', hparts', hid', List.mem_append_left _ hmem, heq⟩

end Answered

theorem notifyFailures_unrecorded (wgs : List WriteGroup) :
    ∀ o ∈ (wgs.flatMap notifyFailure : List (Output Req)), o.isUnrecorded = true :=
  fun o ho => Output.isUnrecorded_of_isSilent (notifyFailures_silent wgs o ho)

theorem close_unrecorded (c : Connection P) : ∀ o ∈ c.close.2, o.isUnrecorded = true :=
  notifyFailures_unrecorded _

/-- Every call keeps responses whole. Only parts that the coordinator takes make a
    difference, and they are final. -/
theorem Task.Effect.answered {task : Task} {o : Outcome P} {maxIovLen : Nat}
    {os : List (Output Req)} (heffect : task.Effect maxIovLen c o)
    (hv : c.responseCoordinator.Valid) (hcore : c.Core os)
    (hfinal : ∀ parts, Q parts → parts.responseOutputFlags.responseParts = .finalParts)
    (htask : task.Carries Q) (h : Answered Q os) : Answered Q (os ++ o.outputs) := by
  cases heffect with
  | registered _ _ _ _ _ _ => exact h.request _ _ _
  | @appended parts i ctx _ hi hid hopen _ =>
    have hparts : Q parts := htask parts rfl
    -- builders give whole responses only
    have hwhole : parts.isFinal = true := decide_eq_true (hfinal parts hparts)
    have hhistory := hcore.history_concat_parts hv hi hid
    rw [hwhole] at hhistory
    refine h.respond hhistory (fun lane hlane => ?_) ?_ hparts
    swap
    · rw [← hid, hv.numbered i ctx hi]
    -- a context that takes parts has an open lane
    obtain ⟨lane', hlane', hclosed⟩ := hcore.flags i ctx hi
    rw [hlane'] at hlane
    cases hlane
    exact hclosed.trans hopen
  | writeStarted _ _ _ _ =>
    refine h.unrecorded fun o ho => ?_
    split at ho
    · rw [List.mem_singleton.mp ho]
      rfl
    · cases ho
  | received _ _ =>
    refine h.unrecorded fun o ho => ?_
    rw [List.mem_singleton.mp ho]
    rfl
  | refused =>
    refine h.unrecorded fun o ho => ?_
    rcases List.mem_cons.mp ho with rfl | ho
    · rfl
    · exact Output.isUnrecorded_of_isSilent (notifyFailure_silent _ o ho)
  | dropped | notAppended =>
    exact h.unrecorded fun o ho => Output.isUnrecorded_of_isSilent (notifyFailure_silent _ o ho)
  | notified _ _ =>
    refine h.unrecorded fun o ho => ?_
    rw [List.mem_singleton.mp ho]
    rfl
  | closed => exact h.unrecorded (close_unrecorded c)
  | groupFinished _ _ | groupFailed => exact h.unrecorded (notifyFailures_unrecorded _)
  | _ => exact h.unrecorded nofun

/-- Events give the connection nothing directly. -/
theorem Event.Effect.answered {o : Outcome P} {os : List (Output Req)}
    (heffect : Event.Effect c o) (h : Answered Q os) : Answered Q (os ++ o.outputs) := by
  cases heffect with
  | aside _ _ => exact h.unrecorded nofun
  | written _ => exact h.unrecorded nofun
  | writeFailed _ _ =>
    refine h.unrecorded fun o ho => ?_
    rcases List.mem_append.mp ho with ho | ho
    · exact close_unrecorded c o ho
    · exact notifyFailures_unrecorded _ o ho
  | writeAborted _ _ => exact h.unrecorded (notifyFailures_unrecorded _)

variable (Q) in
/-- The invariant of a machine whose application gives whole responses. -/
structure ConnectionState.Answering (s : ConnectionState P) (os : List (Output Req)) : Prop where
  calls : ∀ t ∈ s.calls, t.Carries Q
  answered : Answered Q os

theorem ConnectionState.Answering.resume {o : Outcome P} {calls : List Task}
    {os : List (Output Req)} (hnew : ∀ new ∈ o.calls, ∀ t ∈ new, t.Carries Q)
    (hcalls : ∀ t ∈ calls, t.Carries Q) (h : Answered Q (os ++ o.outputs)) :
    (o.resume calls).1.Answering Q (os ++ (o.resume calls).2) := by
  refine ⟨carries_resume hnew hcalls, ?_⟩
  unfold Outcome.resume
  split
  · exact h
  · rw [← List.append_assoc, ← List.append_assoc]
    exact (h.unrecorded (notifyFailures_unrecorded _)).unrecorded (close_unrecorded _)

section Runs

variable (hfinal : ∀ parts, Q parts → parts.responseOutputFlags.responseParts = .finalParts)

include hfinal

theorem ConnectionState.Answering.step {s : ConnectionState P} {l : ConnectionLabel}
    {os : List (Output Req)} {r : ConnectionState P × List (Output Req)}
    (h : s.Answering Q os) (hinv : s.Inv os) (horderly : s.Orderly) (hl : l.Gives Q)
    (hgave : app.GaveIn Q r.2)
    (hstep : (Restinio.connection app cfg).step s l = some r) : r.1.Answering Q (os ++ r.2) := by
  obtain ⟨c, calls⟩ := s
  rcases connection_step_cases hstep with ⟨e, o, rfl, rfl, hr, rfl⟩ | ⟨task, rest, rfl, rfl, rfl⟩
  · exact .resume (carries_receive hl hr) nofun ((receive_effect hr).answered h.answered)
  · have htask : task.Carries Q := h.calls task List.mem_cons_self
    -- the parts that a call appends are those it carries
    have heffect : task.Effect cfg.maxIovLen c (task.exec app cfg c) :=
      Task.exec_effect horderly.sound.valid task
    exact .resume (carries_exec (hgave.mono (outputs_subset_resume _ _)) htask)
      (fun t ht => h.calls t (List.mem_cons_of_mem _ ht))
      (heffect.answered horderly.sound.valid hinv.core hfinal htask h.answered)

/-- What holds of everything that the application gave in this run holds of the
    responses. -/
theorem ConnectionState.Answering.run {s : ConnectionState P} {ls : List ConnectionLabel}
    {oss : List (List (Output Req))} (hfew : cfg.maxPipelinedRequests ≤ 2 ^ 32)
    (hgave : app.GaveIn Q oss.flatten) (hls : ∀ l ∈ ls, l.Gives Q)
    (hrun : (Restinio.connection app cfg).run (.init P cfg) ls = some (s, oss)) :
    s.Answering Q oss.flatten := by
  have hinit : (ConnectionState.init P cfg).Answering Q [] :=
    ⟨fun t ht => List.mem_singleton.mp ht ▸ Task.carries_of_parts_eq_none rfl, nofun⟩
  have hinv : s.Orderly ∧ s.Inv oss.flatten ∧
      (oss.flatten ⊆ oss.flatten → s.Answering Q oss.flatten) := by
    -- all outputs of the run are known from the start, so that each step is among them
    refine Machine.run_invariant_along
      (P := fun _ s os => s.Orderly ∧ s.Inv (List.flatten os) ∧
        (List.flatten os ⊆ oss.flatten → s.Answering Q (List.flatten os)))
      (C := fun _ l => l.Gives Q) ?_ ⟨.init, .init hfew, fun _ => hinit⟩ ?_ hrun
    · intro _ s os l t o ⟨horderly, hinv, h⟩ hl hstep
      rw [List.flatten_concat]
      refine ⟨horderly.step hstep, hinv.step horderly hstep, fun hsub => ?_⟩
      rw [List.append_subset] at hsub
      exact (h hsub.1).step hfinal hinv horderly hl (hgave.mono hsub.2) hstep
    · intro pre l hpre _ _ _
      exact hls l (hpre.subset (by simp))
  exact hinv.2.2 (List.Subset.refl _)

end Runs

/-- The responses up to the first request without one, as messages. -/
theorem Answered.exists_messages {os : List (Output Req)} (h : Answered Q os)
    (hmessage : ∀ parts, Q parts → ∃ m, parts.wg.bytes = Http.response.write m) :
    ∃ ms : List Http.Response, inOrder (history os) = ms.flatMap Http.response.write ∧
      ∀ i m, ms[i]? = some m → i < (history os).length ∧ ∃ parts, Q parts ∧
        parts.requestId = UInt32.ofNat i ∧ .partsAppended parts ∈ os ∧
        parts.wg.bytes = Http.response.write m := by
  -- a lane that is open has nothing in it yet
  have hopen : ∀ lane ∈ history os, lane.closed = false → lane.items = [] := by
    intro lane hlane hclosed
    obtain ⟨i, hi⟩ := List.mem_iff_getElem?.mp hlane
    rcases h i lane hi with rfl | ⟨parts, -, -, -, rfl⟩
    · rfl
    · cases hclosed
  -- so what may leave are the closed lanes in front, one message each
  have hlanes : ∀ i lane, ((history os).takeWhile (·.closed))[i]? = some lane →
      ∃ m, lane.items = Http.response.write m ∧ i < (history os).length ∧ ∃ parts, Q parts ∧
        parts.requestId = UInt32.ofNat i ∧ .partsAppended parts ∈ os ∧
        parts.wg.bytes = Http.response.write m := by
    intro i lane hlane
    have hclosed : lane.closed = true := List.mem_takeWhile_imp (List.mem_of_getElem? hlane)
    have hlane' : (history os)[i]? = some lane := by
      obtain ⟨rest, hrest⟩ := List.takeWhile_prefix (l := history os) (·.closed)
      rw [← hrest]
      exact List.getElem?_append_left (List.getElem?_eq_some_iff.mp hlane).1 ▸ hlane
    have hi : i < (history os).length := (List.getElem?_eq_some_iff.mp hlane').1
    rcases h i lane hlane' with rfl | ⟨parts, hparts, hid, hmem, rfl⟩
    · cases hclosed
    · obtain ⟨m, hm⟩ := hmessage parts hparts
      exact ⟨m, hm, hi, parts, hparts, hid, hmem, hm⟩
  obtain ⟨ms, hlength, hms⟩ := exists_list_of_forall hlanes
  refine ⟨ms, ?_, fun i m hm => ?_⟩
  · rw [inOrder_eq_takeWhile hopen, List.flatMap_def, List.flatMap_def]
    congr 1
    refine List.ext_getElem (by simpa using hlength.symm) fun i h₁ h₂ => ?_
    rw [List.getElem_map, List.getElem_map]
    exact (hms i _ _ (List.getElem?_eq_getElem _) (List.getElem?_eq_getElem _)).1
  · have hi : i < ((history os).takeWhile (·.closed)).length :=
      hlength ▸ (List.getElem?_eq_some_iff.mp hm).1
    exact (hms i _ m (List.getElem?_eq_getElem hi) hm).2

/-- **Whole responses arrive whole and in order.** What the client reads are the responses
    to the first requests, and what is left is the beginning of the next one. -/
theorem ConnectionState.Answering.readAll {s : ConnectionState P} {ls : List ConnectionLabel}
    {oss : List (List (Output Req))} (hfew : cfg.maxPipelinedRequests ≤ 2 ^ 32)
    (h : s.Answering Q oss.flatten)
    (hmessage : ∀ parts, Q parts → ∃ m, parts.wg.bytes = Http.response.write m)
    (hrun : (Restinio.connection app cfg).run (.init P cfg) ls = some (s, oss)) :
    ∃ front back left, Http.response.readAll (wire oss.flatten) = (front, left) ∧
      inOrder (history oss.flatten) = (front ++ back).flatMap Http.response.write ∧
      (∀ i m, (front ++ back)[i]? = some m → ∃ (parts : ResponseParts) (req : Req),
        .requestHandler i parts.requestId req ∈ oss.flatten ∧
        parts.requestId = UInt32.ofNat i ∧ Q parts ∧ .partsAppended parts ∈ oss.flatten ∧
        parts.wg.bytes = Http.response.write m) ∧
      (left = [] ∨ ∃ m ∈ back.head?,
        left <+: Http.response.write m ∧ left ≠ Http.response.write m) ∧
      (s.calls = [] → s.connection.socketOpen = true →
        s.connection.writeOutputCtx.transmitting = false → back = [] ∧ left = []) := by
  have hinv : s.Inv oss.flatten := .run hfew hrun
  obtain ⟨ms, hms, hanswers⟩ := h.answered.exists_messages hmessage
  have hwire := hinv.core.ordered
  rw [hms] at hwire
  -- the wire is cut somewhere in the row of messages
  obtain ⟨front, back, left, rfl, hfront, hread, hleft⟩ :=
    Codec.readAll_prefix Http.response_write_ne_nil hwire
  refine ⟨front, back, left, hread, hms, fun i m hm => ?_, hleft, fun hcalls hopen hidle => ?_⟩
  · obtain ⟨hi, parts, hparts, hid, hmem, hbytes⟩ := hanswers i m hm
    obtain ⟨req, hreq⟩ := hinv.core.exists_request hi
    exact ⟨parts, req, hid ▸ hreq, hid, hparts, hmem, hbytes⟩
  -- nothing to do: the cut is behind the last one
  have hall := hinv.wire_eq (.run hrun) hcalls hopen hidle
  rw [hms, ← List.append_nil (List.flatMap _ _)] at hall
  rw [hall, Codec.readAll_append Http.response_write_ne_nil _
    (Codec.read_nil Http.response_write_ne_nil)] at hread
  obtain ⟨hback, hnil⟩ := Prod.mk.inj hread
  exact ⟨List.append_right_eq_self.mp hback, hnil.symm⟩

end Provenance

/-! ## §3 All responses -/

/-- Parts as `done()` hands them over, of a response that a client understands. The
    builder was made for the request whose id the parts carry. -/
def ResponseParts.Built (parts : ResponseParts) : Prop :=
  ∃ statusLine keepAlive calls wscb b',
    ((ResponseBuilder.new statusLine parts.requestId keepAlive).run calls).Readable
      (ResponseBuilder.bodyOf calls) ∧
    ((ResponseBuilder.new statusLine parts.requestId keepAlive).run calls).done wscb =
      .ok (b', parts)

/-- What a builder makes is one final piece, and a whole message. -/
theorem ResponseParts.Built.message {parts : ResponseParts} (h : parts.Built) :
    parts.responseOutputFlags.responseParts = .finalParts ∧
      ∃ m, parts.wg.bytes = Http.response.write m := by
  obtain ⟨statusLine, keepAlive, calls, wscb, b', hreadable, hdone⟩ := h
  have hholds := ResponseBuilder.holds_run_new statusLine parts.requestId keepAlive calls
  obtain ⟨b'', parts', hdone', -, -, hflags, hbytes, -⟩ := hholds.done wscb
  rw [hdone] at hdone'
  cases hdone'
  refine ⟨by rw [hflags], ResponseBuilder.response hholds hreadable, ?_⟩
  rw [hbytes, ResponseBuilder.write_response]

/-- The header of `create_not_implemented_resp`. -/
def notImplementedHeader : HttpResponseHeader where
  statusLine := ⟨501, ascii "Not Implemented".toList⟩

theorem notImplementedHeader_clean : notImplementedHeader.Clean :=
  ⟨by decide, by decide, by decide, List.all_iff_forall_prop.mp (by decide), nofun, nofun⟩

/-- The response 501 as a client has it. -/
def notImplementedResponse : Http.Response :=
  ⟨(notImplementedHeader.head notImplementedHeader_clean, []),
    HttpResponseHeader.bodyLength_head notImplementedHeader_clean fun _ => rfl⟩

/-- The fixed text of the response 501 is a message like any other. -/
theorem notImplementedParts_bytes (id : UInt32) :
    (notImplementedParts id).wg.bytes = Http.response.write notImplementedResponse := by
  change _ = Http.head.write (notImplementedHeader.head notImplementedHeader_clean) ++ []
  rw [← HttpResponseHeader.createHeaderString_eq notImplementedHeader_clean]
  rfl

/-- A response to a request: built by the application, or the one for requests that were
    not handled. -/
def ResponseParts.Answer (parts : ResponseParts) : Prop :=
  parts.Built ∨ parts = notImplementedParts parts.requestId

theorem ResponseParts.Answer.message {parts : ResponseParts} (h : parts.Answer) :
    parts.responseOutputFlags.responseParts = .finalParts ∧
      ∃ m, parts.wg.bytes = Http.response.write m := by
  rcases h with hbuilt | hparts
  · exact hbuilt.message
  · rw [hparts]
    exact ⟨rfl, notImplementedResponse, notImplementedParts_bytes parts.requestId⟩

variable {s : ConnectionState P} {ls : List ConnectionLabel} {oss : List (List (Output Req))}

end DealerBot.Restinio
