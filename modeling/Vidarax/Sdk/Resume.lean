import Vidarax.Base.Run
import Vidarax.Sdk.Reading

/-!
# Subscriptions across disconnects

Package `vidarax-sdk`, `packages/vidarax-sdk/src/client.ts:793–873`. Whatever happens to the
connections, a generator yields a first part of the events it was asked for. It ends on a read that
fails, and on a buffer that is too long though no event in it is; without these it ends only for
one of the reasons it is meant to end for.
-/

namespace Vidarax.Sdk

open Vidarax.Base

/-! ### Servers -/

/-- The events of a kind behind a cursor. -/
def wanted (log : List RunEvent) (kind : Option String) (cursor : Nat) : List RunEvent :=
  log.filter fun e ↦ kind.all (fun k ↦ e.kind.text = k.toList) && cursor < e.seq

/-- The cursor of a request; `delivery.rs:328`. -/
def EventsRequest.cursor (request : EventsRequest) : Nat :=
  ((request.lastEventId.orElse fun _ ↦ request.after).map WholeNumber.value).getD 0

/-- A server sends the events behind the cursor in their order, after older ones perhaps. -/
def Serves (log : List RunEvent) (request : EventsRequest) (items : List Item) : Prop :=
  ∃ older part, items.filterMap Item.event? = older ++ part ∧
    (∀ e ∈ older, e.seq ≤ request.cursor) ∧ part <+: wanted log request.kind request.cursor

/-- An attempt, and the items that were sent in its body, the last of them perhaps in part. -/
structure Exchange where
  attempt : Attempt
  sent : List Item

/-- The body that is read in an attempt. -/
def Attempt.body? (a : Attempt) : Option Body :=
  match a.aborted, a.answer with
  | false, .response status _ body => if 200 ≤ status ∧ status < 300 then body else none
  | _, _ => none

/-- The signal is aborted when it is looked at. -/
def Attempt.isAborted (a : Attempt) : Bool :=
  a.aborted ||
    match a.answer with
    | .rejected _ aborted => aborted
    | .response _ _ (some ⟨_, .finished aborted⟩) => aborted
    | _ => false

/-- The message of an event as the SDK takes it. -/
def RunEvent.agentEvent (parse : Utf16 → Except String JsValue) (e : RunEvent) :
    Except SdkError AgentEvent :=
  Sdk.agentEvent parse e.seq e.message

/-- The event is above the limit. -/
def RunEvent.Oversized (e : RunEvent) : Prop :=
  MAX_SSE_EVENT_BYTES < (utf16 (Item.event e).text).length

namespace Exchange

variable (parse : Utf16 → Except String JsValue) (runId : String)
  (options : EventSubscriptionOptions) (log : List RunEvent)

/-- The generator makes the attempt. -/
def step (s : Subscription) (x : Exchange) : Subscription := s.attempt parse runId options x.attempt

/-- The body is what a server sends for the request of the generator. -/
def Conforms (s : Subscription) (x : Exchange) : Prop :=
  ∀ body ∈ x.attempt.body?, Reaches body.values x.sent ∧ Serves log (s.request runId options) x.sent

/-- No read fails while the signal is not aborted, and what is left of one event and a value does
not fill the buffer, unless an event is above the limit. -/
def Undisturbed (x : Exchange) : Prop :=
  ∀ body ∈ x.attempt.body?,
    (∀ message, body.ending ≠ .failed message false) ∧
      ((∀ n value, body.values[n]? = some value →
          (bufferAt (body.values.take n) value).length ≤ MAX_SSE_EVENT_BYTES) ∨
        ∃ e, .event e ∈ x.sent ∧ e.Oversized)

/-- What a generator is meant to end for. -/
inductive Explains (x : Exchange) : End → Prop where
  | aborted (h : x.attempt.isAborted = true) : Explains x .returned
  | abortedRead (body : Body) (message : String) (hbody : body ∈ x.attempt.body?)
      (h : body.ending = .failed message true) : Explains x (.threw (.other message))
  | status (code : Nat) (error : Option ApiErrorBody) (body : Option Body) (message : String)
      (h : x.attempt.answer = .response code error body) (hcode : ¬ (200 ≤ code ∧ code < 300)) :
      Explains x (.threw (.http code message error))
  | noBody (code : Nat) (error : Option ApiErrorBody)
      (h : x.attempt.answer = .response code error none) :
      Explains x (.threw (.parse "Event subscription response had no body" []))
  | malformed (e : RunEvent) (he : .event e ∈ x.sent) (err : SdkError)
      (h : e.agentEvent parse = .error err) : Explains x (.threw err)
  | oversized (e : RunEvent) (he : .event e ∈ x.sent) (h : e.Oversized) (raw : Utf16) :
      Explains x (.threw (SseReader.tooLong raw))

/-- If the generator ends in the attempt, it is meant to. -/
def Explained (s : Subscription) (x : Exchange) : Prop :=
  s.ended = none → ∀ e, (step parse runId options s x).ended = some e → Explains parse x e

end Exchange

/-! ### Messages -/

section Messages

variable {parse : Utf16 → Except String JsValue} {s : Subscription} {e : RunEvent}

/-- An event is skipped, or yielded, or ends the generator. -/
theorem receive_message (hs : s.ended = none) :
    s.receive parse e.message =
      if MAX_SAFE_INTEGER < e.seq ∨ e.seq ≤ s.cursor.value then s
      else
        match e.agentEvent parse with
        | .error err => s.finish (.threw err)
        | .ok event => { s with cursor := .safe e.seq, yielded := s.yielded ++ [event] } := by
  have hid : safeInteger e.message.id = if e.seq ≤ MAX_SAFE_INTEGER then some e.seq else none :=
    safeInteger_digits e.seq
  rw [Subscription.receive, if_neg (by simp [hs]), hid]
  by_cases hsafe : e.seq ≤ MAX_SAFE_INTEGER
  · simp only [if_pos hsafe, Nat.not_lt.mpr hsafe, false_or]
    rfl
  · rw [if_neg hsafe, if_pos (.inl (Nat.lt_of_not_le hsafe))]

/-- Events that are too large or not behind the cursor are skipped. -/
theorem receiveAll_skipped {events : List RunEvent}
    (h : ∀ e ∈ events, MAX_SAFE_INTEGER < e.seq ∨ e.seq ≤ s.cursor.value) (hs : s.ended = none) :
    s.receiveAll parse (events.map RunEvent.message) = s := by
  induction events with
  | nil => rfl
  | cons e events ih =>
    rw [List.forall_mem_cons] at h
    rw [Subscription.receiveAll, List.map_cons, List.foldl_cons, receive_message hs, if_pos h.1]
    exact ih h.2

/-- The generator has yielded the first of the events it was asked for, and its cursor is between
these and the others. -/
structure Placed (parse : Utf16 → Except String JsValue) (events : List RunEvent)
    (s : Subscription) (before after : List RunEvent) : Prop where
  events_eq : events = before ++ after
  past : ∀ e ∈ before, e.seq ≤ s.cursor.value
  ahead : ∀ e ∈ after, s.cursor.value < e.seq
  yielded : List.Forall₂ (fun e event ↦ e.agentEvent parse = .ok event) before s.yielded

variable {events before after part : List RunEvent}

/-- What comes next is received in order, up to an event that is malformed. -/
theorem Placed.receiveAll (h : Placed parse events s before after)
    (hsorted : events.Pairwise (·.seq < ·.seq)) (hs : s.ended = none) (hpart : part <+: after) :
    (∃ before after, Placed parse events (s.receiveAll parse (part.map RunEvent.message)) before
        after) ∧
      s.cursor.value ≤ (s.receiveAll parse (part.map RunEvent.message)).cursor.value ∧
      ∀ e, (s.receiveAll parse (part.map RunEvent.message)).ended = some e →
        ∃ event ∈ part, ∃ err, event.agentEvent parse = .error err ∧ e = .threw err := by
  induction part generalizing s before after with
  | nil => exact ⟨⟨before, after, h⟩, Nat.le_refl _, fun e he ↦ nomatch hs.symm.trans he⟩
  | cons event part ih =>
    obtain ⟨rest, rfl⟩ := hpart
    have hahead := h.ahead event (by simp)
    have hsorted' : (event :: (part ++ rest)).Pairwise (·.seq < ·.seq) :=
      (List.pairwise_append.mp (h.events_eq ▸ hsorted)).2.1
    rw [List.pairwise_cons] at hsorted'
    by_cases hsafe : MAX_SAFE_INTEGER < event.seq
    · -- then so are all the others
      have hskip : ∀ e ∈ event :: part, MAX_SAFE_INTEGER < e.seq ∨ e.seq ≤ s.cursor.value := by
        rw [List.forall_mem_cons]
        refine ⟨.inl hsafe, fun e he ↦ .inl ?_⟩
        exact Nat.lt_trans hsafe (hsorted'.1 e (List.mem_append_left _ he))
      rw [receiveAll_skipped hskip hs]
      exact ⟨⟨before, _, h⟩, Nat.le_refl _, fun e he ↦ nomatch hs.symm.trans he⟩
    · have hmessage : s.receive parse event.message = _ := receive_message hs
      rw [if_neg fun hor ↦ hor.elim hsafe (Nat.not_le.mpr hahead)] at hmessage
      rw [Subscription.receiveAll, List.map_cons, List.foldl_cons, hmessage]
      cases hevent : event.agentEvent parse with
      | error err =>
        have hended : (s.finish (.threw err)).ended.isSome := rfl
        have hstays : (s.finish (.threw err)).receiveAll parse (part.map RunEvent.message) = _ :=
          Subscription.receiveAll_of_ended hended _
        rw [Subscription.receiveAll] at hstays
        simp only
        rw [hstays]
        refine ⟨⟨before, _, ⟨h.events_eq, h.past, h.ahead, h.yielded⟩⟩, Nat.le_refl _, ?_⟩
        intro e he
        cases he
        exact ⟨event, List.mem_cons_self, err, hevent, rfl⟩
      | ok agent =>
        have hnext : Placed parse events
            { s with cursor := .safe event.seq, yielded := s.yielded ++ [agent] }
            (before ++ [event]) (part ++ rest) := by
          constructor
          · rw [h.events_eq, List.append_assoc, List.singleton_append, List.cons_append]
          · intro e he
            rw [List.mem_append, List.mem_singleton] at he
            rcases he with he | rfl
            · exact Nat.le_of_lt (Nat.lt_of_le_of_lt (h.past e he) hahead)
            · exact Nat.le_refl _
          · exact hsorted'.1
          · exact List.rel_append h.yielded (.cons hevent .nil)
        obtain ⟨hplaced, hcursor, hended⟩ := ih hnext hs (List.prefix_append _ _)
        refine ⟨hplaced, Nat.le_trans (Nat.le_of_lt hahead) hcursor, fun e he ↦ ?_⟩
        obtain ⟨event', hevent', hmalformed⟩ := hended e he
        exact ⟨event', List.mem_cons_of_mem _ hevent', hmalformed⟩

end Messages

/-! ### Bodies -/

section Bodies

variable {parse : Utf16 → Except String JsValue} {runId : String}
  {options : EventSubscriptionOptions} {log : List RunEvent} {s : Subscription}

/-- A generator is placed in the events behind its first cursor, and has not gone back. -/
def Inv (parse : Utf16 → Except String JsValue) (options : EventSubscriptionOptions)
    (log : List RunEvent) (s : Subscription) : Prop :=
  (Subscription.start options).cursor.value ≤ s.cursor.value ∧
    ∃ before after,
      Placed parse (wanted log options.kind (Subscription.start options).cursor.value) s before after

theorem cursor_request (h : (Subscription.start options).cursor.value ≤ s.cursor.value) :
    (s.request runId options).cursor = s.cursor.value := by
  by_cases hcursor : 0 < s.cursor.value
  · simp [EventsRequest.cursor, Subscription.request, hcursor]
  · have hstart : (Subscription.start options).cursor.value = 0 := by omega
    have hafter : (options.after.map WholeNumber.value).getD 0 = 0 := by
      cases hoptions : options.after with
      | none => rfl
      | some after =>
        rw [Subscription.start, hoptions] at hstart
        exact hstart
    rw [EventsRequest.cursor, Subscription.request, if_neg hcursor]
    change (options.after.map WholeNumber.value).getD 0 = _
    omega

/-- Behind the cursor of a placed generator are the events it has not received. -/
theorem Placed.wanted_eq {kind : Option String} {start : Nat} {before after : List RunEvent}
    (h : Placed parse (wanted log kind start) s before after) (hstart : start ≤ s.cursor.value) :
    wanted log kind s.cursor.value = after := by
  have hfilter : wanted log kind s.cursor.value =
      (wanted log kind start).filter fun e ↦ s.cursor.value < e.seq := by
    rw [wanted, wanted, List.filter_filter]
    apply List.filter_congr
    intro e he
    by_cases hcursor : s.cursor.value < e.seq
    · simp [hcursor, Nat.lt_of_le_of_lt hstart hcursor]
    · simp [hcursor]
  rw [hfilter, h.events_eq, List.filter_append, List.filter_eq_nil_iff.mpr, List.nil_append,
    List.filter_eq_self.mpr]
  · exact fun e he ↦ decide_eq_true (h.ahead e he)
  · exact fun e he ↦ by simpa using h.past e he

/-- Messages of the first items that a server sends leave the generator placed, and end it only when
one of them is malformed. -/
theorem Inv.receiveAll (h : Inv parse options log s) (hlog : log.Pairwise (·.seq < ·.seq))
    (hs : s.ended = none) {items : List Item} (hserves : Serves log (s.request runId options) items)
    (n : Nat) :
    Inv parse options log (s.receiveAll parse ((items.take n).filterMap Item.message?)) ∧
      ∀ e, (s.receiveAll parse ((items.take n).filterMap Item.message?)).ended = some e →
        ∃ event, .event event ∈ items ∧ ∃ err, event.agentEvent parse = .error err ∧
          e = .threw err := by
  obtain ⟨hstart, before, after, hplaced⟩ := h
  obtain ⟨older, part, hitems, holder, hpart⟩ := hserves
  rw [cursor_request hstart] at holder hpart
  rw [Subscription.request, hplaced.wanted_eq hstart] at hpart
  have hmessages : (items.take n).filterMap Item.message? =
      ((items.take n).filterMap Item.event?).map RunEvent.message := List.map_filterMap.symm
  -- the events are older ones, and then some of those that come next
  have hevents : (items.take n).filterMap Item.event? <+: older ++ part :=
    hitems ▸ (List.take_prefix n items).filterMap _
  rw [List.prefix_iff_eq_take, List.take_append] at hevents
  rw [hmessages, hevents, List.map_append, Subscription.receiveAll_append,
    receiveAll_skipped (fun e he ↦ .inr (holder e (List.mem_of_mem_take he))) hs]
  obtain ⟨hplaced', hcursor, hended⟩ := hplaced.receiveAll (hlog.filter _) hs
    ((List.take_prefix _ part).trans hpart)
  refine ⟨⟨Nat.le_trans hstart hcursor, hplaced'⟩, fun e he ↦ ?_⟩
  obtain ⟨event, hevent, hmalformed⟩ := hended e he
  have hsent : event ∈ items.filterMap Item.event? :=
    hitems ▸ List.mem_append_right _ (List.mem_of_mem_take hevent)
  obtain ⟨item, hitem, hsome⟩ := List.mem_filterMap.mp hsent
  cases item with
  | event e' => exact ⟨event, Option.some.inj hsome ▸ hitem, hmalformed⟩
  | keepalive => cases hsome

theorem Inv.finish (h : Inv parse options log s) (e : End) : Inv parse options log (s.finish e) := by
  obtain ⟨hstart, before, after, hplaced⟩ := h
  exact ⟨hstart, before, after, hplaced.events_eq, hplaced.past, hplaced.ahead, hplaced.yielded⟩

theorem Attempt.body?_eq_some {a : Attempt} {body : Body} (h : body ∈ a.body?) :
    a.aborted = false ∧ ∃ status error, a.answer = .response status error (some body) ∧
      200 ≤ status ∧ status < 300 := by
  rw [Option.mem_def, Attempt.body?] at h
  split at h
  · next status error body' haborted hanswer =>
    split at h
    · next hstatus => exact ⟨haborted, status, error, by rw [hanswer, h], hstatus⟩
    · cases h
  · cases h

/-- What is kept of a stream is long only inside an event that is above the limit. -/
theorem exists_oversized {values : List Bytes} {items : List Item}
    (h : values.flatten <+: wire items) (hlong : MAX_SSE_EVENT_BYTES ≤ (unfinished values).length) :
    ∃ e, .event e ∈ items ∧ e.Oversized := by
  obtain ⟨n, -, hnil | ⟨item, hitem, hlength⟩⟩ := found_eq h
  · rw [hnil] at hlong
    exact absurd hlong (by decide)
  · have hlarge : MAX_SSE_EVENT_BYTES < (utf16 item.text).length := Nat.lt_of_le_of_lt hlong hlength
    cases item with
    | event e => exact ⟨e, List.mem_of_getElem? hitem, hlarge⟩
    | keepalive => exact absurd hlarge (by decide)

/-- The end of a body ends the generator as it is meant to. -/
theorem Inv.endBody (h : Inv parse options log s) (hs : s.ended = none) {x : Exchange} {body : Body}
    (hbody : body ∈ x.attempt.body?) (hwire : body.values.flatten <+: wire x.sent) :
    Inv parse options log (s.endBody parse (readerAt body.values) true body.ending) ∧
      (x.Undisturbed → ∀ e, (s.endBody parse (readerAt body.values) true body.ending).ended = some e →
        x.Explains parse e) := by
  obtain ⟨-, status, error, hanswer, -⟩ := Attempt.body?_eq_some hbody
  cases hending : body.ending with
  | waiting => exact ⟨h, fun _ e he ↦ nomatch hs.symm.trans he⟩
  | failed message aborted =>
    refine ⟨h.finish _, fun hundisturbed e he ↦ ?_⟩
    cases he
    cases aborted with
    | false => exact absurd hending ((hundisturbed body hbody).1 message)
    | true => exact .abortedRead body message hbody hending
  | finished aborted =>
    rw [Subscription.endBody]
    rcases readEnd_readerAt body.values with ⟨raw, hlong, herror⟩ | ⟨r, hok⟩
    · rw [herror]
      obtain ⟨event, hevent, hoversized⟩ := exists_oversized hwire hlong
      refine ⟨h.finish _, fun _ e he ↦ ?_⟩
      cases he
      exact .oversized event hevent hoversized raw
    · rw [hok]
      simp only [List.foldl_nil, hs, Option.isSome_none, Bool.not_true, Bool.false_or]
      cases aborted with
      | false => exact ⟨h, fun _ e he ↦ nomatch hs.symm.trans he⟩
      | true =>
        refine ⟨h.finish _, fun _ e he ↦ ?_⟩
        cases he
        refine .aborted ?_
        obtain ⟨values, ending⟩ := body
        subst hending
        rw [Attempt.isAborted, hanswer, Bool.or_true]

/-- A body of a server leaves the generator placed, and ends it as it is meant to end unless it is
disturbed. -/
theorem Inv.readBody (h : Inv parse options log s) (hlog : log.Pairwise (·.seq < ·.seq))
    (hs : s.ended = none) {x : Exchange} {body : Body} (hbody : body ∈ x.attempt.body?)
    (hreaches : Reaches body.values x.sent) (hserves : Serves log (s.request runId options) x.sent) :
    Inv parse options log (s.readBody parse true body) ∧
      (x.Undisturbed → ∀ e, (s.readBody parse true body).ended = some e → x.Explains parse e) := by
  have hwire : body.values.flatten <+: wire x.sent := by
    obtain ⟨missing, hmissing, -⟩ := hreaches
    exact ⟨missing, hmissing⟩
  -- the generator after some of the values
  have hafter (n : Nat) : Inv parse options log (s.receiveAll parse (found (body.values.take n))) ∧
      ∀ e, (s.receiveAll parse (found (body.values.take n))).ended = some e →
        x.Explains parse e := by
    have hpart : (body.values.take n).flatten <+: wire x.sent := by
      refine List.IsPrefix.trans ⟨(body.values.drop n).flatten, ?_⟩ hwire
      rw [← List.flatten_append, List.take_append_drop]
    obtain ⟨m, hfound, -⟩ := found_eq hpart
    rw [hfound]
    obtain ⟨hinv, hended⟩ := h.receiveAll hlog hs hserves m
    refine ⟨hinv, fun e he ↦ ?_⟩
    obtain ⟨event, hevent, err, hmalformed, rfl⟩ := hended e he
    exact .malformed event hevent err hmalformed
  have hclean : carriageReturn ∉ received ([] ++ body.values) := not_mem_received hwire
  have hstart : (s.receiveAll parse (found [])).readValues parse (readerAt []) body.values =
      s.readValues parse .new body.values := rfl
  obtain ⟨n, hread⟩ := @readValues_cases parse s _ _ hclean
  rw [hstart, List.nil_append, List.nil_append] at hread
  rw [Subscription.readBody]
  obtain ⟨hinv, hended⟩ := hafter n
  rcases hread with ⟨rfl, hread⟩ | ⟨hstop, hread⟩ | ⟨value, hvalue, hlong, hread⟩
  · rw [List.take_length] at hinv hended
    rw [hread]
    simp only
    split
    · exact ⟨hinv, fun _ ↦ hended⟩
    · next hrunning =>
      exact hinv.endBody (Option.not_isSome_iff_eq_none.mp hrunning) hbody hwire
  · simp only
    rw [hread, if_pos hstop]
    exact ⟨hinv, fun _ ↦ hended⟩
  · simp only
    rw [hread, if_pos (by rfl)]
    refine ⟨hinv.finish _, fun hundisturbed e he ↦ ?_⟩
    cases he
    rcases (hundisturbed body hbody).2 with hfits | ⟨event, hevent, hoversized⟩
    · exact absurd hlong (Nat.not_lt.mpr (hfits n value hvalue))
    · exact .oversized event hevent hoversized _

/-- An attempt leaves the generator placed, and ends it as it is meant to end unless it is
disturbed. -/
theorem Inv.step (h : Inv parse options log s) (hlog : log.Pairwise (·.seq < ·.seq))
    (hreconnect : options.reconnect.getD true = true) {x : Exchange}
    (hconforms : x.Conforms runId options log s) :
    Inv parse options log (Exchange.step parse runId options s x) ∧
      (x.Undisturbed → x.Explained parse runId options s) := by
  unfold Exchange.Explained
  cases hs : s.ended with
  | some e =>
    have hstays : Exchange.step parse runId options s x = s := if_pos (by rw [hs]; rfl)
    rw [hstays]
    exact ⟨h, fun _ hnone ↦ nomatch hnone⟩
  | none =>
    rw [Exchange.step, Subscription.attempt, if_neg (by rw [hs]; exact Bool.false_ne_true)]
    by_cases haborted : x.attempt.aborted = true
    · rw [if_pos haborted]
      refine ⟨h.finish _, fun _ _ e he ↦ ?_⟩
      cases he
      exact .aborted (by rw [Attempt.isAborted, haborted, Bool.true_or])
    · rw [if_neg haborted, hreconnect]
      cases hanswer : x.attempt.answer with
      | rejected message aborted =>
        cases aborted with
        | true =>
          refine ⟨h.finish _, fun _ _ e he ↦ ?_⟩
          cases he
          exact .aborted (by rw [Attempt.isAborted, hanswer, Bool.or_true])
        | false => exact ⟨h, fun _ _ e he ↦ nomatch hs.symm.trans he⟩
      | response code error body =>
        by_cases hcode : 200 ≤ code ∧ code < 300
        · simp only [not_true_eq_false, hcode, and_self, if_false]
          cases body with
          | none =>
            refine ⟨h.finish _, fun _ _ e he ↦ ?_⟩
            cases he
            exact .noBody code error hanswer
          | some body =>
            have hbody : body ∈ x.attempt.body? := by
              rw [Option.mem_def, Attempt.body?, hanswer, Bool.eq_false_iff.mpr haborted]
              exact if_pos hcode
            obtain ⟨hreaches, hserves⟩ := hconforms body hbody
            obtain ⟨hinv, hended⟩ := h.readBody hlog hs hbody hreaches hserves
            exact ⟨hinv, fun hundisturbed _ ↦ hended hundisturbed⟩
        · simp only [hcode, not_false_eq_true, if_true]
          refine ⟨h.finish _, fun _ _ e he ↦ ?_⟩
          cases he
          exact .status code error body _ hanswer hcode

end Bodies

/-! ### Runs -/

theorem inv_start (parse : Utf16 → Except String JsValue) (options : EventSubscriptionOptions)
    (log : List RunEvent) : Inv parse options log (.start options) := by
  refine ⟨Nat.le_refl _, [], _, rfl, by simp, fun e he ↦ ?_, .nil⟩
  have hwanted := (List.mem_filter.mp he).2
  rw [Bool.and_eq_true] at hwanted
  exact of_decide_eq_true hwanted.2

/-- With `reconnect`, and with a server that sends what it is asked for, a generator yields a first
part of the events behind its first cursor, in their order. While no attempt is disturbed it ends
only for the reasons it is meant to end for. -/
theorem subscription_resumes (parse : Utf16 → Except String JsValue) (runId : String)
    (options : EventSubscriptionOptions) (log : List RunEvent) (exchanges : List Exchange)
    (hreconnect : options.reconnect.getD true = true) (hlog : log.Pairwise (·.seq < ·.seq))
    (h : Meets (Exchange.step parse runId options)
      (fun s x ↦ x.Conforms runId options log s) (.start options) exchanges) :
    (∃ delivered,
      delivered <+: wanted log options.kind (Subscription.start options).cursor.value ∧
        List.Forall₂ (fun e event ↦ e.agentEvent parse = .ok event) delivered
          (subscribeEvents parse runId options (exchanges.map Exchange.attempt)).yielded) ∧
      ((∀ x ∈ exchanges, x.Undisturbed) →
        Meets (Exchange.step parse runId options)
          (fun s x ↦ x.Explained parse runId options s) (.start options) exchanges) := by
  have hrun : subscribeEvents parse runId options (exchanges.map Exchange.attempt) =
      exchanges.foldl (Exchange.step parse runId options) (.start options) := List.foldl_map
  have hinv := inv_start parse options log
  constructor
  · obtain ⟨-, before, after, hplaced⟩ := h.foldl (Inv parse options log) hinv
      fun s x hs hx ↦ (hs.step hlog hreconnect hx).1
    rw [hrun]
    exact ⟨before, ⟨after, hplaced.events_eq.symm⟩, hplaced.yielded⟩
  · intro hundisturbed
    clear hrun
    generalize Subscription.start options = s at h hinv
    induction exchanges generalizing s with
    | nil => trivial
    | cons x exchanges ih =>
      rw [List.forall_mem_cons] at hundisturbed
      obtain ⟨hnext, hexplained⟩ := hinv.step hlog hreconnect h.1
      exact ⟨hexplained hundisturbed.1, ih hundisturbed.2 _ h.2 hnext⟩

/-! ### A read that fails -/

/-- An event with an empty envelope. -/
def sampleEvent : RunEvent :=
  ⟨1, ⟨"gate".toList, unbroken_of_all (by decide)⟩, ⟨"{}".toList, unbroken_of_all (by decide)⟩⟩

/-- A parser that gives every text the envelope of that event. -/
def sampleParse (_ : Utf16) : Except String JsValue :=
  .ok (.object [(units "sequence", .number (F64.ofNat 1)), (units "pts_ms", .number (F64.ofNat 40))])

/-- The event is read whole, and the body ends. -/
def sampleExchange (ending : Ending) : Exchange :=
  ⟨⟨false, .response 200 none (some ⟨[wire [.event sampleEvent]], ending⟩)⟩, [.event sampleEvent]⟩

/-- All events of the run. -/
def sampleOptions : EventSubscriptionOptions := ⟨none, none, none⟩

theorem sample_conforms (ending : Ending) :
    (sampleExchange ending).Conforms "run-1" sampleOptions [sampleEvent] (.start sampleOptions) := by
  intro body hbody
  cases hbody
  refine ⟨⟨[], by simp [sampleExchange], fun item hitem ↦ ?_⟩, [], [sampleEvent], rfl, by simp, ?_⟩
  · cases hitem
    decide
  · exact List.prefix_rfl

theorem subscription_resumes_sample :
    (∃ delivered, delivered <+: [sampleEvent] ∧
      List.Forall₂ (fun e event ↦ e.agentEvent sampleParse = .ok event) delivered
        (subscribeEvents sampleParse "run-1" sampleOptions
          [(sampleExchange (.finished false)).attempt]).yielded) ∧
      Meets (Exchange.step sampleParse "run-1" sampleOptions)
        (fun s x ↦ x.Explained sampleParse "run-1" sampleOptions s) (.start sampleOptions)
        [sampleExchange (.finished false)] := by
  obtain ⟨hyielded, hexplained⟩ := subscription_resumes sampleParse "run-1" sampleOptions
    [sampleEvent] [sampleExchange (.finished false)] rfl (List.pairwise_singleton _ _)
    ⟨sample_conforms _, trivial⟩
  refine ⟨hyielded, hexplained fun x hx ↦ ?_⟩
  cases List.mem_singleton.mp hx
  intro body hbody
  cases hbody
  refine ⟨nofun, .inl fun n value hvalue ↦ ?_⟩
  match n with
  | 0 =>
    cases hvalue
    decide
  | n + 1 => cases hvalue

/-- When the read after an event fails, the generator ends with its error, and is not meant to. -/
theorem read_failure_ends :
    (sampleExchange (.failed "terminated" false)).Conforms "run-1" sampleOptions [sampleEvent]
        (.start sampleOptions) ∧
      (subscribeEvents sampleParse "run-1" sampleOptions
        [(sampleExchange (.failed "terminated" false)).attempt]).ended =
          some (.threw (.other "terminated")) ∧
      ¬ (sampleExchange (.failed "terminated" false)).Explained sampleParse "run-1" sampleOptions
        (.start sampleOptions) := by
  have hended : (subscribeEvents sampleParse "run-1" sampleOptions
      [(sampleExchange (.failed "terminated" false)).attempt]).ended =
        some (.threw (.other "terminated")) := rfl
  refine ⟨sample_conforms _, hended, fun hexplained ↦ ?_⟩
  have hreason := hexplained rfl _ hended
  cases hreason with
  | abortedRead body message hbody h =>
    cases hbody
    cases h
  | malformed e he err h =>
    cases List.mem_singleton.mp he
    cases h

end Vidarax.Sdk
