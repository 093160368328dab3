import CodeAtlas.Proofs.Messages
import CodeAtlas.Server.Client

/-!
What a client does in talking. `Talk.on` runs a part of a conversation from a client's state; each
part has a lemma that says what it gives and how it leaves the client. A request sends itself, hears
messages that are no response to it, answers the requests among them, and ends where its response is
heard or nothing more can be (`request_course`). The lock about a call adds that a call that breaks
off is the last one (`on_locked`, `on_locked_broken`).
-/
namespace CodeAtlas

/-- What talking gives, and the client after it. -/
def Talk.on {α : Type} (x : Talk α) (c : Client) : Except ServerFault α × Client := x.run.run c

namespace Talk

variable {α β : Type} {c : Client}

theorem on_pure (a : α) : (pure a : Talk α).on c = (.ok a, c) := rfl

theorem on_throw (fault : ServerFault) : (throw fault : Talk α).on c = (.error fault, c) := rfl

theorem on_get : (get : Talk Client).on c = (.ok c, c) := rfl

theorem on_modify (f : Client → Client) : (modify f : Talk Unit).on c = (.ok (), f c) := rfl

theorem on_bind (x : Talk α) (f : α → Talk β) :
    (x >>= f).on c = match x.on c with
      | (.ok a, c') => (f a).on c'
      | (.error fault, c') => (.error fault, c') := by
  have first : x.run.run c = pure (x.on c) := rfl
  rw [on, ExceptT.run_bind, StateT.run_bind, first, pure_bind]
  rcases x.on c with ⟨_ | _, c'⟩ <;> rfl

theorem on_tryCatch (x : Talk α) (f : ServerFault → Talk α) :
    (tryCatch x f).on c = match x.on c with
      | (.ok a, c') => (.ok a, c')
      | (.error fault, c') => (f fault).on c' := by
  have first : x.run.run c = pure (x.on c) := rfl
  rw [on, ExceptT.run_tryCatch, StateT.run_bind, first, pure_bind]
  rcases x.on c with ⟨_ | _, c'⟩ <;> rfl

end Talk

namespace Client

open Talk

variable {c : Client}

theorem on_send (message : Json) :
    (send message).on c = (.ok (), { c with sent := c.sent ++ [message] }) := rfl

theorem on_notify (method : String) (params : Json) : (notify method params).on c =
    (.ok (), { c with sent := c.sent ++ [notificationMessage method params] }) := rfl

theorem on_nextId : nextId.on c = (.ok (c.lastId + 1), { c with lastId := c.lastId + 1 }) := rfl

/-! ## Ids in messages -/

/-- The id of a request. -/
def requestId? (message : Json) : Option Json :=
  if (Message.methodName? message).isSome then message.member? "id" else none

theorem requestId?_requestMessage (id : Nat) (method : String) (params : Json) :
    requestId? (requestMessage id method params) = some (.ofNat id) := rfl

theorem requestId?_shutdownMessage (id : Nat) :
    requestId? (shutdownMessage id) = some (.ofNat id) := rfl

theorem requestId?_notificationMessage (method : String) (params : Json) :
    requestId? (notificationMessage method params) = none := rfl

/-! ## Hearing -/

/-- A message from a stream, or why there is none, and the rest of the stream. -/
def hear (stream : List UInt8) : Except ServerFault Message × List UInt8 :=
  match Frame.read stream with
  | (.error fault, rest) => (.error fault, rest)
  | (.ok body, rest) =>
    match Message.ofBody? body with
    | some message => (.ok message, rest)
    | none => (.error .notMessage, rest)

theorem on_receive :
    receive.on c = ((hear c.input).1, { c with input := (hear c.input).2 }) := by
  simp only [receive, on_bind, on_get, on_modify]
  rcases hr : Frame.read c.input with ⟨body, rest⟩
  cases body with
  | error fault => simp only [hear, hr, receive.liftExcept, on_throw]
  | ok body =>
    simp only [hear, hr, receive.liftExcept, on_pure]
    cases Message.ofBody? body <;> rfl

theorem hear_eq_ok {stream rest : List UInt8} {m : Message} (h : hear stream = (.ok m, rest)) :
    ∃ body, Frame.read stream = (.ok body, rest) ∧ Message.ofBody? body = some m := by
  rw [hear] at h
  split at h
  · cases h
  · next body _ read =>
    split at h
    · next message found =>
      cases h
      exact ⟨body, read, found⟩
    · cases h

theorem hear_eq_error {stream rest : List UInt8} {fault : ServerFault}
    (h : hear stream = (.error fault, rest)) :
    Frame.read stream = (.error fault, rest) ∨
      fault = .notMessage ∧ ∃ body, Frame.read stream = (.ok body, rest) ∧
        Message.ofBody? body = none := by
  rw [hear] at h
  split at h
  · next read =>
    cases h
    exact .inl read
  · next body _ read =>
    split at h
    · cases h
    · next found =>
      cases h
      exact .inr ⟨rfl, body, read, found⟩

theorem length_readHeader_lt {done header stream rest : List UInt8} {room : Nat}
    (h : Frame.readHeader done room stream = (.ok header, rest)) : rest.length < stream.length := by
  fun_induction Frame.readHeader done room stream with
  | case1 => cases h
  | case2 => cases h
  | case3 done room b tail done' ends =>
    cases h
    exact Nat.lt_succ_self _
  | case4 done room b tail done' unfinished ih => exact Nat.lt_succ_of_lt (ih h)

theorem length_readBody_le {header stream body rest : List UInt8}
    (h : Frame.readBody header stream = (.ok body, rest)) : rest.length ≤ stream.length := by
  unfold Frame.readBody at h
  split at h
  · cases h
  split at h
  · cases h
  split_ifs at h <;> cases h
  exact (List.drop_suffix _ _).length_le

/-- A message takes at least one byte. -/
theorem length_hear_lt {stream rest : List UInt8} {m : Message} (h : hear stream = (.ok m, rest)) :
    rest.length < stream.length := by
  obtain ⟨body, read, -⟩ := hear_eq_ok h
  unfold Frame.read at read
  split at read
  · cases read
  · next header behind head =>
    exact Nat.lt_of_le_of_lt (length_readBody_le read) (length_readHeader_lt head)

/-- The messages at the front of a stream, and the rest of the stream. -/
inductive Hears : List UInt8 → List Message → List UInt8 → Prop where
  | nothing (stream : List UInt8) : Hears stream [] stream
  | message {stream behind rest : List UInt8} {m : Message} {later : List Message}
      (first : hear stream = (.ok m, behind)) (others : Hears behind later rest) :
      Hears stream (m :: later) rest

/-- Where a reader of frames may stand in a stream, faulty frames included. -/
inductive Reached (input : List UInt8) : List UInt8 → Prop where
  | start : Reached input input
  | next {stream : List UInt8} (here : Reached input stream) : Reached input (Frame.read stream).2

theorem Reached.trans {input stream rest : List UInt8} (first : Reached input stream)
    (later : Reached stream rest) : Reached input rest := by
  induction later with
  | start => exact first
  | next _ ih => exact ih.next

theorem hear_snd (stream : List UInt8) : (hear stream).2 = (Frame.read stream).2 := by
  rw [hear]
  rcases Frame.read stream with ⟨fault | body, rest⟩
  · rfl
  · dsimp only
    cases Message.ofBody? body <;> rfl

theorem Reached.of_hear {input stream rest : List UInt8} {r : Except ServerFault Message}
    (here : Reached input stream) (h : hear stream = (r, rest)) : Reached input rest := by
  have behind : (Frame.read stream).2 = rest := by rw [← hear_snd, h]
  exact behind ▸ here.next

theorem Hears.reached {input stream rest : List UInt8} {heard : List Message}
    (h : Hears stream heard rest) (here : Reached input stream) : Reached input rest := by
  induction h with
  | nothing => exact here
  | message first _ ih => exact ih (here.of_hear first)

/-! ## Frames that cannot be read -/

section

variable {input stream rest : List UInt8} {fault : ServerFault}

/-- The header at the front of a stream tells more bytes than memory can be asked for. -/
def Overflows (stream rest : List UInt8) : Prop :=
  ∃ header text n, Frame.readHeader [] Frame.maxHeader stream = (.ok header, rest) ∧
    Text.Utf8.decode? header = some text ∧ Frame.length? text = some n ∧ Frame.maxBody < n

/-- Reading breaks off right behind such a header. -/
theorem Overflows.read_eq (h : Overflows stream rest) :
    Frame.read stream = (.error Frame.overflow, rest) := by
  obtain ⟨header, text, n, head, decoded, told, large⟩ := h
  rw [Frame.read, head]
  simp only [Frame.readBody, decoded, told, if_pos large]

/-- Such a header stands where a reader of the stream may come. -/
def Floods (input : List UInt8) : Prop := ∃ stream rest, Reached input stream ∧ Overflows stream rest

theorem Floods.of_reached (h : Floods stream) (here : Reached input stream) : Floods input := by
  obtain ⟨last, rest, later, overflows⟩ := h
  exact ⟨last, rest, here.trans later, overflows⟩

/-- The faults of a stream without a message at its front. -/
def streamFaults : List ServerFault :=
  [.io, .notUtf8, .notMessage, .breach .headerTooLarge, .breach .missingLength]

theorem breaksOff_of_mem_streamFaults (h : fault ∈ streamFaults) : fault.breaksOff = false :=
  (show ∀ fault ∈ streamFaults, fault.breaksOff = false by decide) fault h

theorem readHeader_error {done : List UInt8} {room : Nat}
    (h : Frame.readHeader done room stream = (.error fault, rest)) :
    fault = .io ∨ fault = .breach .headerTooLarge := by
  fun_induction Frame.readHeader done room stream with
  | case1 =>
    cases h
    exact .inl rfl
  | case2 =>
    cases h
    exact .inr rfl
  | case3 => cases h
  | case4 done room b tail done' unfinished ih => exact ih h

/-- A frame that cannot be read is faulty, or reading it breaks off. -/
theorem read_error (h : Frame.read stream = (.error fault, rest)) :
    fault ∈ streamFaults ∨ fault = Frame.overflow ∧ Overflows stream rest := by
  unfold Frame.read at h
  split at h
  · next found =>
    cases h
    rcases readHeader_error found with rfl | rfl <;> exact .inl (by decide)
  · next header behind head =>
    unfold Frame.readBody at h
    split at h
    · cases h
      exact .inl (by decide)
    · next text decoded =>
      split at h
      · cases h
        exact .inl (by decide)
      · next n told =>
        split_ifs at h with large
        · cases h
          exact .inr ⟨rfl, header, text, n, head, decoded, told, large⟩
        · cases h
        · cases h
          exact .inl (by decide)

/-- The same of a stream with no message at its front. -/
theorem hear_error (h : hear stream = (.error fault, rest)) :
    fault ∈ streamFaults ∨ fault = Frame.overflow ∧ Overflows stream rest := by
  rcases hear_eq_error h with fails | ⟨rfl, -⟩
  · exact read_error fails
  · exact .inl (by decide)

end

/-! ## Requests -/

/-- Whether a message is the response to a request. -/
def answers (id : Nat) : Message → Bool
  | .response other _ _ => isId other id
  | _ => false

/-- The reply to a message, if it wants one. -/
def replyTo? : Message → Option Json
  | .request id method params => some (replyMessage id (replyResult method params))
  | _ => none

theorem filterMap_requestId?_replies (heard : List Message) :
    (heard.filterMap replyTo?).filterMap requestId? = [] := by
  rw [List.filterMap_filterMap]
  refine List.filterMap_eq_nil_iff.mpr fun m _ => ?_
  cases m <;> rfl

/-- What a response says. -/
def verdict (method : String) (result error : Option Json) : Except ServerFault Json :=
  match error with
  | some error =>
    .error (.refused method (((error.member? "message").bind Json.text?).getD "unknown error"))
  | none => .ok (result.getD .null)

theorem on_outcome (method : String) (result error : Option Json) :
    (outcome method result error).on c = (verdict method result error, c) := by
  cases error <;> rfl

/-- What is heard that is no response to a request is dropped, or replied to. -/
theorem on_await_other {id fuel : Nat} {method : String} {m : Message} {rest : List UInt8}
    (h : hear c.input = (.ok m, rest)) (other : answers id m = false) :
    (await id method (fuel + 1)).on c =
      (await id method fuel).on
        { c with input := rest, sent := c.sent ++ (replyTo? m).toList } := by
  simp only [await, on_bind, on_receive, h]
  cases m with
  | response stale result error =>
    have stale : isId stale id = false := other
    simp [stale, replyTo?]
  | request => simp only [on_bind, on_send]; rfl
  | notification => simp [replyTo?]

theorem on_await_response {id fuel : Nat} {method : String} {own : Json}
    {result error : Option Json} {rest : List UInt8}
    (h : hear c.input = (.ok (.response own result error), rest)) (same : isId own id = true) :
    (await id method (fuel + 1)).on c =
      (verdict method result error, { c with input := rest }) := by
  simp only [await, on_bind, on_receive, h, same, if_true, on_outcome]

theorem on_await_fault {id fuel : Nat} {method : String} {fault : ServerFault} {rest : List UInt8}
    (h : hear c.input = (.error fault, rest)) :
    (await id method (fuel + 1)).on c = (.error fault, { c with input := rest }) := by
  simp only [await, on_bind, on_receive, h]

/-- How waiting for a response ends where something is heard last: with the response, or because
nothing more can be heard. -/
inductive Ends (id : Nat) (method : String) (stream : List UInt8) :
    Except ServerFault Json → List UInt8 → Prop where
  | response {own : Json} {result error : Option Json} {rest : List UInt8}
      (heard : hear stream = (.ok (.response own result error), rest)) (same : isId own id = true) :
      Ends id method stream (verdict method result error) rest
  | fault {fault : ServerFault} {rest : List UInt8} (heard : hear stream = (.error fault, rest)) :
      Ends id method stream (.error fault) rest

theorem Ends.reached {id : Nat} {method : String} {input stream rest : List UInt8}
    {r : Except ServerFault Json} (h : Ends id method stream r rest) (here : Reached input stream) :
    Reached input rest := by
  cases h with
  | response last => exact here.of_hear last
  | fault last => exact here.of_hear last

/-- Whether a result is that of a call that broke off. -/
def breaksOff {α : Type} : Except ServerFault α → Bool
  | .ok _ => false
  | .error fault => fault.breaksOff

theorem breaksOff_map {α β : Type} (f : α → β) (r : Except ServerFault α) :
    breaksOff (r.map f) = breaksOff r := by
  cases r <;> rfl

/-- A request breaks off only where a header tells too much. -/
theorem floods_of_ends {id : Nat} {method : String} {input stream rest : List UInt8}
    {r : Except ServerFault Json} (h : Ends id method stream r rest) (here : Reached input stream)
    (broke : breaksOff r = true) : Floods input := by
  cases h with
  | @response _ result error _ => cases error <;> cases broke
  | fault heard =>
    rcases hear_error heard with known | ⟨-, overflows⟩
    · exact absurd ((breaksOff_of_mem_streamFaults known).symm.trans broke) nofun
    · exact ⟨stream, rest, here, overflows⟩

/-- With more steps than there are bytes, waiting goes on as long as something can be heard. -/
theorem await_course {id fuel : Nat} (method : String) (enough : c.input.length < fuel) :
    ∃ heard behind r rest, Hears c.input heard behind ∧ (∀ m ∈ heard, answers id m = false) ∧
      Ends id method behind r rest ∧ (await id method fuel).on c =
        (r, { c with input := rest, sent := c.sent ++ heard.filterMap replyTo? }) := by
  -- each message that is heard takes a byte at least, so the steps outlast the bytes
  induction fuel generalizing c with
  | zero => exact absurd enough (Nat.not_lt_zero _)
  | succ fuel ih =>
    rcases first : hear c.input with ⟨fault | m, behind⟩
    · refine ⟨[], c.input, _, behind, .nothing _, fun m hm => absurd hm List.not_mem_nil,
        .fault first, ?_⟩
      rw [on_await_fault first, List.filterMap_nil, List.append_nil]
    · by_cases own : answers id m = true
      · cases m with
        | response id' result error =>
          refine ⟨[], c.input, _, behind, .nothing _, fun m hm => absurd hm List.not_mem_nil,
            .response first own, ?_⟩
          rw [on_await_response first own, List.filterMap_nil, List.append_nil]
        | request | notification => cases own
      · have other : answers id m = false := Bool.eq_false_iff.mpr own
        have less : behind.length < fuel :=
          Nat.lt_of_lt_of_le (length_hear_lt first) (Nat.le_of_lt_succ enough)
        obtain ⟨heard, last, r, rest, hears, others, ends, run⟩ :=
          @ih { c with input := behind, sent := c.sent ++ (replyTo? m).toList } less
        refine ⟨m :: heard, last, r, rest, .message first hears,
          List.forall_mem_cons.mpr ⟨other, others⟩, ends, ?_⟩
        rw [on_await_other first other, run]
        cases wants : replyTo? m <;> simp [wants]

/-- A request takes the next id and sends itself; then it hears messages that are no response to it
and replies to those that want a reply, in order, until it ends. -/
theorem request_course (c : Client) (method : String) (params : Json) :
    ∃ heard behind r rest, Hears c.input heard behind ∧
      (∀ m ∈ heard, answers (c.lastId + 1) m = false) ∧
      Ends (c.lastId + 1) method behind r rest ∧ (request method params).on c =
        (r, { c with
          input := rest
          sent := c.sent ++ requestMessage (c.lastId + 1) method params ::
            heard.filterMap replyTo?
          lastId := c.lastId + 1 }) := by
  obtain ⟨heard, behind, r, rest, hears, others, ends, run⟩ :=
    @await_course { c with
      sent := c.sent ++ [requestMessage (c.lastId + 1) method params]
      lastId := c.lastId + 1 } (c.lastId + 1) _ method (Nat.lt_succ_self _)
  refine ⟨heard, behind, r, rest, hears, others, ends, ?_⟩
  simp only [request, on_bind, on_nextId, on_send, on_get]
  rw [run]
  simp

/-- A request whose response is heard first. -/
theorem on_request_response {method : String} {params own : Json} {result error : Option Json}
    {rest : List UInt8} (h : hear c.input = (.ok (.response own result error), rest))
    (same : isId own (c.lastId + 1) = true) :
    (request method params).on c = (verdict method result error, { c with
      input := rest
      sent := c.sent ++ [requestMessage (c.lastId + 1) method params]
      lastId := c.lastId + 1 }) := by
  simp only [request, on_bind, on_nextId, on_send, on_get]
  exact on_await_response h same

/-- A request after which nothing is heard. -/
theorem on_request_fault {method : String} {params : Json} {fault : ServerFault}
    {rest : List UInt8} (h : hear c.input = (.error fault, rest)) :
    (request method params).on c = (.error fault, { c with
      input := rest
      sent := c.sent ++ [requestMessage (c.lastId + 1) method params]
      lastId := c.lastId + 1 }) := by
  simp only [request, on_bind, on_nextId, on_send, on_get]
  exact on_await_fault h

/-! ## Documents and the end -/

/-- Why a document cannot be shown. -/
def openFault? (disk : Disk) (uri : String) : Option ServerFault :=
  match FileUri.toPath? uri.toList with
  | none => some (.breach .notFilePath)
  | some path => if (disk.text? path).isNone then some .io else none

/-- A document that cannot be shown does not break off the call. -/
theorem breaksOff_openFault {disk : Disk} {uri : String} {fault : ServerFault}
    (h : openFault? disk uri = some fault) : fault.breaksOff = false := by
  unfold openFault? at h
  split at h
  · cases h
    rfl
  · split_ifs at h
    cases h
    rfl

/-- The text of a document. -/
def documentText (disk : Disk) (uri : String) : List Char :=
  (((FileUri.toPath? uri.toList).bind disk.text?).getD [])

/-- The message that shows a document. -/
def openMessage (disk : Disk) (uri : String) : Json :=
  notificationMessage "textDocument/didOpen" (openParams uri (documentText disk uri))

theorem on_ensureOpen_again {uri : String} (h : uri ∈ c.opened) (disk : Disk) :
    (ensureOpen disk uri).on c = (.ok (), c) := by
  have shown : c.opened.contains uri = true := List.contains_iff_mem.mpr h
  simp only [ensureOpen, on_bind, on_get, shown, if_true, on_pure]

theorem on_ensureOpen_fault {uri : String} (h : uri ∉ c.opened) {disk : Disk}
    {fault : ServerFault} (unreadable : openFault? disk uri = some fault) :
    (ensureOpen disk uri).on c = (.error fault, c) := by
  have hidden : c.opened.contains uri = false := by simpa using h
  simp only [ensureOpen, on_bind, on_get, hidden, if_neg Bool.false_ne_true]
  unfold openFault? at unreadable
  cases place : FileUri.toPath? uri.toList with
  | none =>
    rw [place] at unreadable
    cases unreadable
    rfl
  | some path =>
    rw [place] at unreadable
    cases text : disk.text? path with
    | none =>
      simp only [text, Option.isNone_none, if_true, Option.some.injEq] at unreadable
      subst unreadable
      simp only [text, on_throw]
    | some text' => simp [text] at unreadable

theorem on_ensureOpen_first {uri : String} (h : uri ∉ c.opened) {disk : Disk}
    (readable : openFault? disk uri = none) :
    (ensureOpen disk uri).on c = (.ok (), { c with
      sent := c.sent ++ [openMessage disk uri]
      opened := uri :: c.opened }) := by
  have hidden : c.opened.contains uri = false := by simpa using h
  simp only [ensureOpen, on_bind, on_get, hidden, if_neg Bool.false_ne_true]
  unfold openFault? at readable
  cases place : FileUri.toPath? uri.toList with
  | none => rw [place] at readable; cases readable
  | some path =>
    rw [place] at readable
    cases text : disk.text? path with
    | none => simp [text] at readable
    | some text' =>
      simp only [text, on_bind, on_notify, on_modify, openMessage, documentText, place,
        Option.bind_some, Option.getD_some]

/-- Reading up to a response changes nothing but what is left to read. -/
theorem drain_course (id fuel : Nat) :
    ∃ r rest, Reached c.input rest ∧ (drain id fuel).on c = (r, { c with input := rest }) := by
  induction fuel generalizing c with
  | zero => exact ⟨.ok (), c.input, .start, rfl⟩
  | succ fuel ih =>
    rcases first : hear c.input with ⟨fault | m, behind⟩
    · refine ⟨.error fault, behind, Reached.start.of_hear first, ?_⟩
      simp only [drain, on_bind, on_receive, first]
    · obtain ⟨r, rest, reached, run⟩ := @ih { c with input := behind }
      have later : Reached c.input rest := (Reached.start.of_hear first).trans reached
      cases m with
      | response own result error =>
        by_cases same : isId own id = true
        · refine ⟨.ok (), behind, Reached.start.of_hear first, ?_⟩
          simp only [drain, on_bind, on_receive, first, same, if_true, on_pure]
        · refine ⟨r, rest, later, ?_⟩
          simp only [drain, on_bind, on_receive, first, if_neg same]
          exact run
      | request | notification =>
        refine ⟨r, rest, later, ?_⟩
        simp only [drain, on_bind, on_receive, first]
        exact run

/-- The last message of a conversation, if it is not broken off in its end. -/
def farewell : Except ServerFault Unit → List Json
  | .ok () => [notificationMessage "exit" (.object [])]
  | .error _ => []

/-- The last request takes the next id; no reply is sent while its response is waited for. -/
theorem shutdown_course (c : Client) : ∃ r rest, Reached c.input rest ∧ shutdown.on c =
    (r, { c with
      input := rest
      sent := c.sent ++ shutdownMessage (c.lastId + 1) :: farewell r
      lastId := c.lastId + 1 }) := by
  obtain ⟨r, rest, reached, run⟩ :=
    @drain_course { c with
      sent := c.sent ++ [shutdownMessage (c.lastId + 1)]
      lastId := c.lastId + 1 } (c.lastId + 1) (c.input.length + 1)
  simp only [shutdown, on_bind, on_nextId, on_send, on_get, on_tryCatch, run]
  cases r with
  | ok => exact ⟨.ok (), rest, reached, by simp [on_notify, farewell]⟩
  | error fault =>
    by_cases whole : fault.breaksOff = true
    · exact ⟨.error fault, rest, reached, by simp [whole, on_throw, farewell]⟩
    · exact ⟨.ok (), rest, reached, by simp [whole, on_pure, on_notify, farewell]⟩

/-! ## The lock -/

/-- Once a call has broken off, no call is made, and nothing changes. -/
theorem on_locked_broken {α : Type} (h : c.broken = true) (call : Talk α) :
    (locked call).on c = (.error .poisoned, c) := by
  simp only [locked, on_bind, on_get, h, if_true, on_throw]

/-- Until then a call runs as it does without the lock, and it is noted whether it broke off. -/
theorem on_locked {α : Type} (h : c.broken = false) {call : Talk α} {r : Except ServerFault α}
    {c' : Client} (run : call.on c = (r, c')) (same : c'.broken = c.broken) :
    (locked call).on c = (r, { c' with broken := breaksOff r }) := by
  have unbroken : c'.broken = false := same.trans h
  simp only [locked, on_bind, on_get, h, Bool.false_eq_true, if_false, on_tryCatch, run]
  cases r with
  | ok a =>
    rw [breaksOff, ← unbroken]
  | error fault =>
    by_cases breaks : fault.breaksOff = true
    · simp only [breaks, if_true, on_bind, on_modify, on_throw, breaksOff]
    · have whole : fault.breaksOff = false := Bool.eq_false_iff.mpr breaks
      simp only [whole, Bool.false_eq_true, if_false, on_throw, breaksOff]
      rw [← unbroken]

end Client

end CodeAtlas
