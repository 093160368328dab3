import CodeAtlas.Proofs.Frames
import CodeAtlas.Proofs.Talking
import Mathlib

/-!
Requests and their responses. A client that has done anything before gives its next request an id
that no request had, and ends it with the first response to that id in the stream; the requests of
the server that come before it are replied to in order (`requests_get_their_responses`). What a
message is, is said of the values of the texts in the frames. So nothing is said of frames that
write a member of a message twice, and they do break it (`responses_missed`). A header that tells
more than memory can be asked for (`Overflows`) breaks off the call that reads it, and no call is
made after that.
-/
namespace CodeAtlas

open Client

variable {input stream rest : List UInt8}

/-! ## What a client does -/

/-- What a client does in a conversation. -/
inductive Act where
  | request (method : String) (params : Json)
  | notify (method : String) (params : Json)
  | ensureOpen (disk : Disk) (uri : String)
  | shutdown

namespace Act

/-- Whether an act takes an id. Once a call has broken off, no request is made. -/
def asks (broken : Bool) : Act → Bool
  | request _ _ => !broken
  | shutdown => true
  | notify _ _ | ensureOpen _ _ => false

/-- The client after an act, which may have failed. Calls are made under the lock; a conversation
is ended without it. -/
def after (c : Client) : Act → Client
  | request method params => ((locked (Client.request method params)).on c).2
  | notify method params => ((locked (Client.notify method params)).on c).2
  | ensureOpen disk uri => ((locked (Client.ensureOpen disk uri)).on c).2
  | shutdown => (Client.shutdown.on c).2

end Act

namespace Client

/-- The client after acts, begun with what the server will have written. -/
def afterActs (input : List UInt8) (acts : List Act) : Client := acts.foldl Act.after { input }

end Client

/-- What an act does to the state that ids and reading depend on. -/
structure Act.Step (act : Act) (c c' : Client) : Prop where
  reached : Reached c.input c'.input
  lastId : c'.lastId = c.lastId + [act].countP (Act.asks c.broken)
  ids : c'.sent.filterMap requestId? =
    c.sent.filterMap requestId? ++ if act.asks c.broken then [.ofNat (c.lastId + 1)] else []
  stays : c.broken = true → c'.broken = true
  broken : c'.broken = true →
    c.broken = true ∨ Floods c.input

variable {c : Client}

theorem Act.step_shutdown (c : Client) : Act.shutdown.Step c (Act.shutdown.after c) := by
  obtain ⟨r, rest, reached, run⟩ := shutdown_course c
  rw [Act.after, run]
  refine ⟨reached, rfl, ?_, id, .inl⟩
  rw [List.filterMap_append, List.filterMap_cons_some (requestId?_shutdownMessage _)]
  cases r <;> rfl

/-- Where no call has broken off, a call takes the ids and leaves the client as it does without the
lock. -/
theorem Act.step_unbroken (act : Act) (h : c.broken = false) : act.Step c (act.after c) := by
  have still {c' : Client} : c.broken = true → c'.broken = true := fun broke =>
    absurd (h.symm.trans broke) nofun
  cases act with
  | request method params =>
    obtain ⟨heard, behind, r, rest, hears, -, ends, run⟩ := request_course c method params
    have at_last : Reached c.input behind := hears.reached .start
    rw [Act.after, on_locked h run rfl]
    refine ⟨ends.reached at_last, by rw [h]; rfl, ?_, still, fun broke =>
      .inr (floods_of_ends ends at_last broke)⟩
    rw [List.filterMap_append, List.filterMap_cons_some (requestId?_requestMessage _ _ _),
      filterMap_requestId?_replies, h]
    rfl
  | notify method params =>
    rw [Act.after, on_locked h (on_notify method params) rfl]
    refine ⟨.start, rfl, ?_, still, nofun⟩
    rw [List.filterMap_append, List.filterMap_cons_none (requestId?_notificationMessage _ _)]
    rfl
  | ensureOpen disk uri =>
    rw [Act.after]
    by_cases shown : uri ∈ c.opened
    · rw [on_locked h (on_ensureOpen_again shown disk) rfl]
      exact ⟨.start, rfl, (List.append_nil _).symm, still, nofun⟩
    · cases fault : openFault? disk uri with
      | some fault =>
        rw [on_locked h (on_ensureOpen_fault shown fault) rfl]
        refine ⟨.start, rfl, (List.append_nil _).symm, still, fun broke => ?_⟩
        exact absurd ((breaksOff_openFault fault).symm.trans broke) nofun
      | none =>
        rw [on_locked h (on_ensureOpen_first shown fault) rfl]
        refine ⟨.start, rfl, ?_, still, nofun⟩
        rw [List.filterMap_append, openMessage,
          List.filterMap_cons_none (requestId?_notificationMessage _ _)]
        rfl
  | shutdown => exact Act.step_shutdown c

theorem Act.step (act : Act) (c : Client) : act.Step c (act.after c) := by
  cases h : c.broken with
  | false => exact act.step_unbroken h
  | true =>
    cases act with
    | request | notify | ensureOpen =>
      rw [Act.after, on_locked_broken h]
      exact ⟨.start, by rw [h]; rfl, by rw [h]; exact (List.append_nil _).symm, id, .inl⟩
    | shutdown => exact Act.step_shutdown c

/-- After any acts as many ids have been taken as there were requests among them, one by one, unless
a call has broken off. -/
theorem Client.afterActs_spec (input : List UInt8) (acts : List Act) :
    let c := afterActs input acts
    Reached input c.input ∧
      c.sent.filterMap requestId? = (List.range' 1 c.lastId).map Json.ofNat ∧
      (c.broken = false → c.lastId = acts.countP (Act.asks false)) ∧
      (c.broken = true → Floods input) := by
  induction acts using List.reverseRecOn with
  | nil => exact ⟨.start, rfl, fun _ => rfl, nofun⟩
  | append_singleton acts act ih =>
    obtain ⟨reached, ids, lastId, broken⟩ := ih
    have last : afterActs input (acts ++ [act]) = act.after (afterActs input acts) := by
      rw [afterActs, List.foldl_append]
      rfl
    have step := act.step (afterActs input acts)
    dsimp only
    rw [last]
    refine ⟨reached.trans step.reached, ?_, fun whole => ?_, fun broke => ?_⟩
    · rw [step.ids, ids, step.lastId, List.countP_singleton]
      split_ifs
      · rw [List.range'_1_concat, List.map_append, Nat.add_comm 1]
        rfl
      · rw [List.append_nil, Nat.add_zero]
    · have before : (afterActs input acts).broken = false :=
        Bool.eq_false_iff.mpr fun broke => by rw [step.stays broke] at whole; cases whole
      rw [step.lastId, lastId before, before, List.countP_append]
    · rcases step.broken broke with earlier | ⟨stream, rest, here, overflows⟩
      · exact broken earlier
      · exact ⟨stream, rest, reached.trans here, overflows⟩

/-! ## Messages as values -/

namespace Message

/-- Whether a message is a response to the request with an id: it has that id and no method. -/
def Responds (id : Nat) (v : Json) : Prop :=
  v.member? "id" = some (.ofNat id) ∧ methodName? v = none

/-- The reply to a message, if it is a request: it has the id of the request. -/
def replyOf? (v : Json) : Option Json :=
  match v.member? "id", methodName? v with
  | some id, some method => some (replyMessage id (replyResult method (paramsOf v)))
  | _, _ => none

theorem isId_iff {id : Json} {n : Nat} : isId id n = true ↔ id = .ofNat n := by
  unfold isId
  split
  · next k =>
    rw [beq_iff_eq, Json.ofNat, Json.number.injEq, Json.Number.integer.injEq]
  · next other =>
    exact iff_of_false Bool.false_ne_true fun same => other _ same

theorem answers_iff {v : Json} {m : Message} {n : Nat} (h : ofValue? v = some m) :
    answers n m = true ↔ Responds n v := by
  unfold ofValue? at h
  unfold Responds
  split at h
  · next id method own name =>
    cases h
    simp [answers, name]
  · next id own name =>
    cases h
    simp [answers, own, name, isId_iff]
  · next method own name =>
    cases h
    simp [answers, name]
  · cases h

theorem replyTo?_eq {v : Json} {m : Message} (h : ofValue? v = some m) :
    replyTo? m = replyOf? v := by
  unfold ofValue? at h
  unfold replyOf?
  split at h <;> cases h <;> simp_all [replyTo?]

theorem ofValue?_eq_response {v id : Json} {result error : Option Json}
    (h : ofValue? v = some (.response id result error)) :
    result = present? v "result" ∧ error = present? v "error" := by
  unfold ofValue? at h
  split at h <;> cases h
  exact ⟨rfl, rfl⟩

end Message

open Message

/-- The values of the texts in the frames at the front of a stream, all of them messages, and the
rest of the stream. -/
inductive Brings : List UInt8 → List Json → List UInt8 → Prop where
  | nothing (stream : List UInt8) : Brings stream [] stream
  | message {stream body behind rest : List UInt8} {v : Json} {later : List Json}
      (frame : Frame.read stream = (.ok body, behind)) (text : valueOf? body = some v)
      (kind : (ofValue? v).isSome) (others : Brings behind later rest) :
      Brings stream (v :: later) rest

/-- The stream has no message at its front: a frame cannot be read, or there is no message in it. -/
inductive Silent (stream : List UInt8) : ServerFault → List UInt8 → Prop where
  | frame {fault : ServerFault} {rest : List UInt8}
      (fails : Frame.read stream = (.error fault, rest)) : Silent stream fault rest
  | body {body rest : List UInt8} (frame : Frame.read stream = (.ok body, rest))
      (other : (valueOf? body).bind ofValue? = none) : Silent stream .notMessage rest

/-- How a request ends: with what the response at the front of the stream says, with a fault where
there is no message, or with no result at all where a header tells too much. -/
inductive Concludes (id : Nat) (method : String) (stream : List UInt8) :
    Except ServerFault Json → List UInt8 → Prop where
  | response {v : Json} {rest : List UInt8} (brings : Brings stream [v] rest)
      (own : Responds id v) :
      Concludes id method stream (verdict method (present? v "result") (present? v "error")) rest
  | fault {fault : ServerFault} {rest : List UInt8} (silent : Silent stream fault rest)
      (kind : fault ∈ streamFaults) : Concludes id method stream (.error fault) rest
  | brokenOff {rest : List UInt8} (overflows : Overflows stream rest) :
      Concludes id method stream (.error Frame.overflow) rest

/-- No frame at which a reader may stand writes a member of a message twice. -/
def AllNamedOnce (input : List UInt8) : Prop :=
  ∀ stream body rest, Reached input stream → Frame.read stream = (.ok body, rest) →
    Message.NamedOnce body

/-! ## What is heard, as values -/

theorem AllNamedOnce.reached (named : AllNamedOnce input) (here : Reached input stream) :
    AllNamedOnce stream :=
  fun _ _ _ there => named _ _ _ (here.trans there)

/-- A message that is heard is the value of the text in a frame. -/
theorem exists_value_of_hear {m : Message} (named : AllNamedOnce stream)
    (h : hear stream = (.ok m, rest)) :
    ∃ body v, Frame.read stream = (.ok body, rest) ∧ valueOf? body = some v ∧
      ofValue? v = some m := by
  obtain ⟨body, frame, found⟩ := hear_eq_ok h
  rw [Message.ofBody?_eq (named _ _ _ .start frame)] at found
  obtain ⟨v, text, kind⟩ := Option.bind_eq_some_iff.mp found
  exact ⟨body, v, frame, text, kind⟩

theorem silent_of_hear {fault : ServerFault} (named : AllNamedOnce stream)
    (h : hear stream = (.error fault, rest)) : Silent stream fault rest := by
  rcases hear_eq_error h with fails | ⟨rfl, body, frame, other⟩
  · exact .frame fails
  · rw [Message.ofBody?_eq (named _ _ _ .start frame)] at other
    exact .body frame other

/-- The messages that are heard are the values that the stream brings, and so are the replies. -/
theorem exists_brings_of_hears {heard : List Message} {id : Nat} (h : Hears stream heard rest)
    (named : AllNamedOnce stream) (others : ∀ m ∈ heard, answers id m = false) :
    ∃ values, Brings stream values rest ∧ (∀ v ∈ values, ¬ Responds id v) ∧
      values.filterMap replyOf? = heard.filterMap replyTo? := by
  -- the frames behind a message are frames of the same stream, so they too are named once
  induction h with
  | nothing stream => exact ⟨[], .nothing stream, fun v hv => absurd hv List.not_mem_nil, rfl⟩
  | message first _ ih =>
    obtain ⟨other, others⟩ := List.forall_mem_cons.mp others
    obtain ⟨body, v, frame, text, kind⟩ := exists_value_of_hear named first
    obtain ⟨values, brings, strange, replies⟩ :=
      ih (named.reached (Reached.start.of_hear first)) others
    refine ⟨v :: values, .message frame text (Option.isSome_of_mem kind) brings,
      List.forall_mem_cons.mpr ⟨fun own => ?_, strange⟩, ?_⟩
    · exact Bool.eq_false_iff.mp other ((answers_iff kind).mpr own)
    · rw [List.filterMap_cons, List.filterMap_cons, replyTo?_eq kind, replies]

theorem concludes_of_ends {id : Nat} {method : String} {r : Except ServerFault Json}
    (h : Ends id method stream r rest) (named : AllNamedOnce stream) :
    Concludes id method stream r rest := by
  cases h with
  | response heard same =>
    obtain ⟨body, v, frame, text, kind⟩ := exists_value_of_hear named heard
    obtain ⟨rfl, rfl⟩ := ofValue?_eq_response kind
    exact .response (.message frame text (Option.isSome_of_mem kind) (.nothing _))
      ((answers_iff kind).mp same)
  | fault heard =>
    rcases hear_error heard with known | ⟨rfl, overflows⟩
    · exact .fault (silent_of_hear named heard) known
    · exact .brokenOff overflows

/-- Requests get their responses. The requests of a conversation have the ids 1, 2, 3, … A request
that is made after any acts, failed ones among them, has the next id. It is sent; then messages are
heard that are no response to it, and those among them that are requests are replied to, in order,
and nothing else is. It ends with the first message that responds to it, or with a fault where there
is no message; what the server writes later is not read. A call breaks off only where a header tells
too much; from then on no request is made, and the client stays as it is. -/
theorem requests_get_their_responses (input : List UInt8) (named : AllNamedOnce input)
    (acts : List Act) :
    let c := afterActs input acts
    let id := c.lastId + 1
    c.sent.filterMap requestId? = (List.range' 1 c.lastId).map Json.ofNat ∧
    (c.broken = false → c.lastId = acts.countP (Act.asks false) ∧
      ∀ method params, ∃ heard behind r rest,
        (locked (request method params)).on c = (r, { c with
          input := rest
          sent := c.sent ++ requestMessage id method params :: heard.filterMap replyOf?
          lastId := id
          broken := breaksOff r }) ∧
        Brings c.input heard behind ∧ (∀ v ∈ heard, ¬ Responds id v) ∧
        Concludes id method behind r rest) ∧
    (c.broken = true → Floods input ∧
      ∀ method params, (locked (request method params)).on c = (.error .poisoned, c)) := by
  intro c id
  obtain ⟨reached, ids, lastId, broken⟩ := afterActs_spec input acts
  refine ⟨ids, fun whole => ⟨lastId whole, fun method params => ?_⟩,
    fun broke => ⟨broken broke, fun method params => on_locked_broken broke _⟩⟩
  obtain ⟨heard, behind, r, rest, hears, others, ends, run⟩ := request_course c method params
  have named_here := named.reached reached
  obtain ⟨values, brings, strange, replies⟩ := exists_brings_of_hears hears named_here others
  have concludes := concludes_of_ends ends (named_here.reached (hears.reached .start))
  exact ⟨values, behind, r, rest, replies ▸ on_locked whole run rfl, brings, strange, concludes⟩

/-! ## Frames of texts -/

/-- The frames of texts. -/
def framesOf (texts : List (List Char)) : List UInt8 :=
  texts.flatMap fun text => Frame.ofBody (Text.Utf8.encode text)

/-- A text that a frame can have. -/
def Framed (text : List Char) : Prop :=
  text ≠ [] ∧ (Text.Utf8.encode text).length ≤ Frame.maxBody

instance (text : List Char) : Decidable (Framed text) := inferInstanceAs (Decidable (_ ∧ _))

theorem read_framesOf {text : List Char} (h : Framed text) (later : List (List Char)) :
    Frame.read (framesOf (text :: later)) = (.ok (Text.Utf8.encode text), framesOf later) := by
  rw [framesOf, List.flatMap_cons, Frame.ofBody_eq]
  exact Frame.read_packet (Frame.sound_of_body (Frame.encode_ne_nil h.1) h.2) _

/-- A reader of frames stands between them. -/
theorem exists_framesOf_of_reached {texts : List (List Char)} (h : ∀ text ∈ texts, Framed text)
    (here : Reached (framesOf texts) stream) :
    ∃ later, later <:+ texts ∧ stream = framesOf later := by
  induction here with
  | start => exact ⟨texts, List.suffix_refl _, rfl⟩
  | next _ ih =>
    obtain ⟨later, suffix, rfl⟩ := ih
    cases later with
    | nil => exact ⟨[], suffix, rfl⟩
    | cons text later =>
      refine ⟨later, (List.suffix_cons text later).trans suffix, ?_⟩
      rw [read_framesOf (h text (suffix.subset List.mem_cons_self))]

/-- Whether a text writes no member of a message twice. -/
def namedOnce? (text : List Char) : Bool :=
  match Json.outline? text with
  | some (.object members) => decide (Distinct members)
  | _ => true

theorem namedOnce_encode {text : List Char} (h : namedOnce? text = true) :
    Message.NamedOnce (Text.Utf8.encode text) := by
  intro text' members decoded outline
  rw [Text.Utf8.decode?_encode] at decoded
  cases decoded
  rw [namedOnce?, outline] at h
  exact of_decide_eq_true h

theorem namedOnce_framesOf {texts : List (List Char)}
    (h : ∀ text ∈ texts, Framed text ∧ namedOnce? text = true) : AllNamedOnce (framesOf texts) := by
  intro stream body rest here frame
  obtain ⟨later, suffix, rfl⟩ := exists_framesOf_of_reached (fun text ht => (h text ht).1) here
  cases later with
  | nil => cases frame
  | cons text later =>
    obtain ⟨framed, named⟩ := h text (suffix.subset List.mem_cons_self)
    rw [read_framesOf framed] at frame
    cases frame
    exact namedOnce_encode named

/-- A conversation in which the server asks under the id that the client is waiting for, and answers
the first request once more. -/
def mixedTexts : List (List Char) :=
  ["\x7b\"id\":1,\"result\":null\x7d".toList,
    "\x7b\"id\":2,\"method\":\"m\",\"params\":[0]\x7d".toList,
    "\x7b\"id\":1,\"result\":\"late\"\x7d".toList,
    "\x7b\"method\":\"window/logMessage\"\x7d".toList,
    "\x7b\"id\":2,\"result\":\"two\"\x7d".toList,
    "\x7b\"id\":3,\"error\":\x7b\"message\":\"no\"\x7d\x7d".toList]

theorem mixedTexts_sound : ∀ text ∈ mixedTexts, Framed text ∧ namedOnce? text = true := by
  decide +kernel

/-- No header of such frames tells too much. -/
theorem not_overflows_framesOf {texts : List (List Char)} (h : ∀ text ∈ texts, Framed text)
    (here : Reached (framesOf texts) stream) : ¬ Overflows stream rest := by
  intro overflows
  have read := overflows.read_eq
  obtain ⟨later, suffix, rfl⟩ := exists_framesOf_of_reached h here
  cases later with
  | nil => cases read
  | cons text later =>
    rw [read_framesOf (h text (suffix.subset List.mem_cons_self))] at read
    cases read

/-- A header that tells one byte more than memory can be asked for. -/
def flood : List UInt8 :=
  Text.Utf8.encode (Frame.headerText [Frame.lengthLine (Frame.maxBody + 1)])

theorem read_flood : Frame.read flood = (.error Frame.overflow, []) := by
  have announces : Frame.Announces [Frame.lengthLine (Frame.maxBody + 1)] (Frame.maxBody + 1) :=
    Frame.announces_lengthLine (by decide)
  have read := Frame.read_overflow announces (Nat.lt_succ_self _) (by decide) []
  rwa [List.append_nil] at read

theorem namedOnce_flood : AllNamedOnce flood := by
  have faulty : ∀ stream, Reached flood stream → stream = flood ∨ stream = [] := by
    intro stream here
    induction here with
    | start => exact .inl rfl
    | next _ ih =>
      rcases ih with rfl | rfl
      · exact .inr (congrArg Prod.snd read_flood)
      · exact .inr rfl
  intro stream body rest here frame
  rcases faulty stream here with rfl | rfl
  · rw [read_flood] at frame
    cases frame
  · cases frame

/-- The first request is answered, and the client waits for the response to the second; and a first
request in which a header tells too much is the last one. -/
theorem mixed_requests_get_their_responses :
    let c := afterActs (framesOf mixedTexts)
      [.request "initialize" .null, .notify "initialized" (.object [])]
    let late := afterActs flood [.request "initialize" .null]
    AllNamedOnce (framesOf mixedTexts) ∧ c.broken = false ∧ c.lastId = 1 ∧
    c.sent.filterMap requestId? = [.ofNat 1] ∧
    (∀ method params, ∃ heard behind r rest,
      (locked (request method params)).on c = (r, { c with
        input := rest
        sent := c.sent ++ requestMessage (c.lastId + 1) method params :: heard.filterMap replyOf?
        lastId := c.lastId + 1
        broken := breaksOff r }) ∧
      Brings c.input heard behind ∧ (∀ v ∈ heard, ¬ Responds (c.lastId + 1) v) ∧
      Concludes (c.lastId + 1) method behind r rest) ∧
    AllNamedOnce flood ∧ late.broken = true ∧
    ∀ method params, (locked (request method params)).on late = (.error .poisoned, late) := by
  intro c late
  have named := namedOnce_framesOf mixedTexts_sound
  obtain ⟨ids, going, broken⟩ := requests_get_their_responses (framesOf mixedTexts) named
    [.request "initialize" .null, .notify "initialized" (.object [])]
  have whole : c.broken = false := Bool.eq_false_iff.mpr fun broke =>
    have ⟨stream, rest, here, overflows⟩ := (broken broke).1
    not_overflows_framesOf (fun text ht => (mixedTexts_sound text ht).1) here overflows
  obtain ⟨lastId, requests⟩ := going whole
  have first : c.sent.filterMap requestId? = [.ofNat 1] := by
    have ids : c.sent.filterMap requestId? = (List.range' 1 c.lastId).map Json.ofNat := ids
    rw [ids, show c.lastId = 1 from lastId]
    rfl
  have broke : late.broken = true := by
    have heard : hear flood = (.error Frame.overflow, []) := by rw [hear, read_flood]
    have run := on_locked rfl (@on_request_fault { input := flood } "initialize" .null _ _ heard) rfl
    exact congrArg (fun call => call.2.broken) run
  have closed := (requests_get_their_responses flood namedOnce_flood
    [.request "initialize" .null]).2.2 broke
  exact ⟨named, whole, lastId, first, requests, namedOnce_flood, broke, closed.2⟩

theorem hear_message {text : List Char} {m : Message} (h : Framed text)
    (message : Message.parse? text = some m) (later : List (List Char)) :
    hear (framesOf (text :: later)) = (.ok m, framesOf later) := by
  rw [hear, read_framesOf h]
  simp only [Message.ofBody?, Text.Utf8.decode?_encode, Option.bind_some, message]

theorem hear_no_message {text : List Char} (h : Framed text)
    (other : Message.parse? text = none) (later : List (List Char)) :
    hear (framesOf (text :: later)) = (.error .notMessage, framesOf later) := by
  rw [hear, read_framesOf h]
  simp only [Message.ofBody?, Text.Utf8.decode?_encode, Option.bind_some, other]

/-- A response whose result is nested too deep to be read. -/
def deepText : List Char :=
  "\x7b\"id\":2,\"result\":".toList ++ List.replicate 127 '[' ++ List.replicate 127 ']' ++ ['\x7d']

/-- A request of the server that has its parameters twice. -/
def twiceText : List Char :=
  "\x7b\"id\":3,\"method\":\"m\",\"params\":1,\"params\":2\x7d".toList

/-- A response without a result. -/
def firstText : List Char := "\x7b\"id\":1,\"result\":null\x7d".toList

def thirdText : List Char := "\x7b\"id\":3,\"result\":\"three\"\x7d".toList

/-- A response that is nested too deep ends its request with a fault, and a request of the server
that has its parameters twice is taken for a response: it is not replied to, and the response behind
it is not read. -/
theorem responses_missed :
    (request "first" .null).on { input := framesOf [firstText, deepText, twiceText, thirdText] } =
      (.ok .null, {
        input := framesOf [deepText, twiceText, thirdText]
        sent := [requestMessage 1 "first" .null]
        lastId := 1 }) ∧
    ((Json.outline? deepText).map fun v => ((v.member? "id").map (isId · 2), methodName? v)) =
      some (some true, none) ∧
    (request "second" .null).on {
        input := framesOf [deepText, twiceText, thirdText]
        sent := [requestMessage 1 "first" .null]
        lastId := 1 } =
      (.error .notMessage, {
        input := framesOf [twiceText, thirdText]
        sent := [requestMessage 1 "first" .null, requestMessage 2 "second" .null]
        lastId := 2 }) ∧
    Json.outline? twiceText = some (.object [("id", .ofNat 3), ("method", .string "m"),
      ("params", .ofNat 1), ("params", .ofNat 2)]) ∧
    (request "third" .null).on {
        input := framesOf [twiceText, thirdText]
        sent := [requestMessage 1 "first" .null, requestMessage 2 "second" .null]
        lastId := 2 } =
      (.ok .null, {
        input := framesOf [thirdText]
        sent := [requestMessage 1 "first" .null, requestMessage 2 "second" .null,
          requestMessage 3 "third" .null]
        lastId := 3 }) := by
  have first : Message.parse? firstText = some (.response (.ofNat 1) none none) := by cbv
  have second : Message.parse? deepText = none := Option.isNone_iff_eq_none.mp (by decide +kernel)
  have third : Message.parse? twiceText = some (.response (.ofNat 3) none none) := by cbv
  have heard₁ := hear_message (show Framed firstText by decide +kernel) first
    [deepText, twiceText, thirdText]
  have heard₂ := hear_no_message (show Framed deepText by decide +kernel) second
    [twiceText, thirdText]
  have heard₃ := hear_message (show Framed twiceText by decide +kernel) third [thirdText]
  have params : Json.outline? twiceText = some (.object [("id", .ofNat 3), ("method", .string "m"),
      ("params", .ofNat 1), ("params", .ofNat 2)]) := by cbv
  -- what the streams are made of matters no more, only what is heard at them
  generalize framesOf [firstText, deepText, twiceText, thirdText] = input at *
  generalize framesOf [deepText, twiceText, thirdText] = input₁ at *
  generalize framesOf [twiceText, thirdText] = input₂ at *
  generalize framesOf [thirdText] = input₃ at *
  refine ⟨?_, by decide +kernel, ?_, params, ?_⟩
  · exact (on_request_response heard₁ rfl).trans rfl
  · exact (on_request_fault heard₂).trans rfl
  · exact (on_request_response heard₃ rfl).trans rfl

end CodeAtlas
