import CodeAtlas.Proofs.Talking
import CodeAtlas.Server.Session
import Mathlib

/-!
Documents are shown before they are asked about. Of the messages that a service sends, at most one
shows a document, and each request about it comes later (`Orderly`); this holds at every point of a
conversation, whatever the server writes and whichever calls fail. A call whose document cannot be
shown leaves everything as it was, so it is as if it had not been made
(`documents_shown_before_asked_about`). Once a call has broken off, all calls fail and leave
everything as it was.
-/
namespace CodeAtlas.Session

open Client Talk

/-! ## Messages about documents -/

/-- The document that a message names. -/
def documentUri? (message : Json) : Option String :=
  (message.path? ["params", "textDocument", "uri"]).bind Json.text?

/-- The document that a message shows. -/
def shows? (message : Json) : Option String :=
  if Message.methodName? message = some "textDocument/didOpen" then documentUri? message else none

/-- The document that a request is about. -/
def asksAbout? (message : Json) : Option String :=
  if (requestId? message).isSome then documentUri? message else none

/-- A message that neither shows a document nor asks about one. -/
def Quiet (message : Json) : Prop := shows? message = none ∧ asksAbout? message = none

theorem shows?_openMessage (disk : Disk) (uri : String) :
    shows? (openMessage disk uri) = some uri := rfl

theorem asksAbout?_openMessage (disk : Disk) (uri : String) :
    asksAbout? (openMessage disk uri) = none := rfl

theorem shows?_query (id : Nat) (q : Query) :
    shows? (requestMessage id (methodOf q) (paramsOf q)) = none := by
  cases q <;> rfl

theorem asksAbout?_query (id : Nat) (q : Query) :
    asksAbout? (requestMessage id (methodOf q) (paramsOf q)) = some (documentOf q) := by
  cases q <;> rfl

theorem quiet_replyMessage (id result : Json) : Quiet (replyMessage id result) := ⟨rfl, rfl⟩

theorem quiet_initialize (id processId : Nat) (rootUri : String) :
    Quiet (requestMessage id "initialize" (initializeParams processId rootUri)) := ⟨rfl, rfl⟩

theorem quiet_initialized : Quiet (notificationMessage "initialized" (.object [])) := ⟨rfl, rfl⟩

theorem quiet_shutdownMessage (id : Nat) : Quiet (shutdownMessage id) := ⟨rfl, rfl⟩

theorem quiet_exit : Quiet (notificationMessage "exit" (.object [])) := ⟨rfl, rfl⟩

theorem quiet_replies (heard : List Message) : ∀ m ∈ heard.filterMap replyTo?, Quiet m := by
  intro m hm
  obtain ⟨message, -, reply⟩ := List.mem_filterMap.mp hm
  cases message <;> cases reply
  exact quiet_replyMessage _ _

/-! ## The order of messages -/

/-- No document is shown twice, and a request about a document comes after what shows it. -/
structure Orderly (sent : List Json) : Prop where
  once : (sent.filterMap shows?).Nodup
  before : ∀ first message later uri, sent = first ++ message :: later →
    asksAbout? message = some uri → uri ∈ first.filterMap shows?

variable {sent : List Json}

theorem orderly_nil : Orderly [] where
  once := List.nodup_nil
  before _ _ _ _ split := absurd split.symm (by simp)

/-- A message goes on in order if what it shows has not been shown, and what it asks about has. -/
theorem Orderly.snoc (h : Orderly sent) {message : Json}
    (fresh : ∀ uri, shows? message = some uri → uri ∉ sent.filterMap shows?)
    (known : ∀ uri, asksAbout? message = some uri → uri ∈ sent.filterMap shows?) :
    Orderly (sent ++ [message]) where
  once := by
    cases shown : shows? message with
    | none => simpa [shown] using h.once
    | some uri =>
      rw [List.filterMap_append, List.filterMap_cons_some shown, List.filterMap_nil,
        ← List.concat_eq_append]
      exact List.Nodup.concat (fresh uri shown) h.once
  before := by
    intro first other later uri split about
    -- the request is the new message, or it stood among the earlier ones
    rcases List.eq_nil_or_concat later with rfl | ⟨later, last, rfl⟩
    · obtain ⟨rfl, same⟩ := List.append_inj' split rfl
      cases same
      exact known uri about
    · rw [List.concat_eq_append, ← List.cons_append, ← List.append_assoc] at split
      exact h.before _ _ _ _ (List.append_inj' split rfl).1 about

theorem Orderly.append (h : Orderly sent) {extra : List Json} (quiet : ∀ m ∈ extra, Quiet m) :
    Orderly (sent ++ extra) := by
  induction extra generalizing sent with
  | nil => rwa [List.append_nil]
  | cons m extra ih =>
    obtain ⟨⟨hidden, aside⟩, quiet⟩ := List.forall_mem_cons.mp quiet
    have snoc := h.snoc (fun uri shown => absurd (hidden.symm.trans shown) nofun)
      fun uri about => absurd (aside.symm.trans about) nofun
    rw [List.append_cons]
    exact ih snoc quiet

theorem shows_of_quiet {extra : List Json} (quiet : ∀ m ∈ extra, Quiet m) :
    extra.filterMap shows? = [] :=
  List.filterMap_eq_nil_iff.mpr fun m hm => (quiet m hm).1

/-- A client whose messages are in order, whose open documents are those it has shown, and which has
broken off only where a header tells too much. -/
structure Tidy (input : List UInt8) (c : Client) : Prop where
  orderly : Orderly c.sent
  opened : ∀ uri, uri ∈ c.opened ↔ uri ∈ c.sent.filterMap shows?
  reached : Reached input c.input
  broken : c.broken = true → Floods input

variable {input : List UInt8} {c : Client} {disk : Disk} {q : Query}

theorem tidy_begin (input : List UInt8) : Tidy input { input } where
  orderly := orderly_nil
  opened _ := Iff.rfl
  reached := .start
  broken := nofun

/-- Messages that are quiet keep a client tidy. -/
theorem Tidy.append (h : Tidy input c) {extra : List Json} (quiet : ∀ m ∈ extra, Quiet m)
    {rest : List UInt8} (reached : Reached c.input rest) (lastId : Nat) :
    Tidy input { c with input := rest, sent := c.sent ++ extra, lastId := lastId } where
  orderly := h.orderly.append quiet
  opened uri := by
    rw [h.opened, List.filterMap_append, shows_of_quiet quiet, List.append_nil]
  reached := h.reached.trans reached
  broken := h.broken

/-- A client stays tidy where it shows a document that it has not shown. -/
theorem Tidy.open (h : Tidy input c) (hidden : documentOf q ∉ c.opened) :
    Tidy input { c with
      sent := c.sent ++ [openMessage disk (documentOf q)]
      opened := documentOf q :: c.opened } where
  orderly := by
    refine h.orderly.snoc (fun uri shown => ?_) fun uri about => ?_
    · rw [shows?_openMessage] at shown
      cases shown
      exact fun found => hidden ((h.opened _).mpr found)
    · rw [asksAbout?_openMessage] at about
      cases about
  opened uri := by
    rw [List.mem_cons, h.opened, List.filterMap_append,
      List.filterMap_cons_some (shows?_openMessage _ _), List.filterMap_nil, List.mem_append,
      List.mem_singleton, or_comm]
  reached := h.reached
  broken := h.broken

/-- A client stays tidy where it asks about a document that it has shown. -/
theorem Tidy.request (h : Tidy input c) (shown : documentOf q ∈ c.opened) {replies : List Json}
    (quiet : ∀ m ∈ replies, Quiet m) {rest : List UInt8} (reached : Reached c.input rest)
    {broken : Bool} (broke : broken = true → Floods c.input) :
    Tidy input { c with
      input := rest
      sent := c.sent ++ requestMessage (c.lastId + 1) (methodOf q) (paramsOf q) :: replies
      lastId := c.lastId + 1
      broken := broken } where
  orderly := by
    rw [List.append_cons]
    refine (h.orderly.snoc (fun uri shows => ?_) fun uri about => ?_).append quiet
    · rw [shows?_query] at shows
      cases shows
    · rw [asksAbout?_query] at about
      cases about
      exact (h.opened _).mp shown
  opened uri := by
    rw [h.opened, List.filterMap_append, List.filterMap_cons_none (shows?_query _ _),
      shows_of_quiet quiet, List.append_nil]
  reached := h.reached.trans reached
  broken broke' := (broke broke').of_reached h.reached

/-! ## Calls -/

/-- A call whose document cannot be shown fails and leaves everything as it was. -/
theorem on_ask_fault (whole : c.broken = false) (hidden : documentOf q ∉ c.opened)
    {fault : ServerFault} (unreadable : openFault? disk (documentOf q) = some fault) :
    (ask disk q).on c = (.error fault, c) := by
  have run : (exchange disk q).on c = (.error fault, c) := by
    rw [exchange, on_bind, on_ensureOpen_fault hidden unreadable]
  rw [ask, on_locked whole run rfl, breaksOff, breaksOff_openFault unreadable, ← whole]

/-- Where its document is shown, a call sends its request and replies. -/
theorem ask_course {c' : Client} (whole : c.broken = false)
    (shown : (ensureOpen disk (documentOf q)).on c = (.ok (), c')) (same : c'.broken = c.broken) :
    ∃ r rest replies, (∀ m ∈ replies, Quiet m) ∧ Reached c'.input rest ∧
      (breaksOff r = true → Floods c'.input) ∧ (ask disk q).on c = (r, { c' with
        input := rest
        sent := c'.sent ++ requestMessage (c'.lastId + 1) (methodOf q) (paramsOf q) :: replies
        lastId := c'.lastId + 1
        broken := breaksOff r }) := by
  obtain ⟨heard, behind, r, rest, hears, -, ends, asked⟩ :=
    request_course c' (methodOf q) (paramsOf q)
  have last : Reached c'.input behind := hears.reached .start
  have run : (exchange disk q).on c = (r.map (decode q), { c' with
      input := rest
      sent := c'.sent ++ requestMessage (c'.lastId + 1) (methodOf q) (paramsOf q) ::
        heard.filterMap replyTo?
      lastId := c'.lastId + 1 }) := by
    rw [exchange, on_bind, shown]
    simp only [on_bind, asked]
    cases r <;> rfl
  exact ⟨r.map (decode q), rest, heard.filterMap replyTo?, quiet_replies heard,
    ends.reached last, fun broke => floods_of_ends ends last (breaksOff_map _ r ▸ broke),
    on_locked whole run same⟩

theorem Tidy.after_ask (h : Tidy input c) (disk : Disk) (q : Query) :
    Tidy input ((ask disk q).on c).2 := by
  cases whole : c.broken with
  | true =>
    rw [ask, on_locked_broken whole]
    exact h
  | false =>
    by_cases shown : documentOf q ∈ c.opened
    · obtain ⟨r, rest, replies, quiet, reached, broke, run⟩ :=
        ask_course whole (on_ensureOpen_again shown disk) rfl
      rw [run]
      exact h.request shown quiet reached broke
    · cases fault : openFault? disk (documentOf q) with
      | some fault =>
        rw [on_ask_fault whole shown fault]
        exact h
      | none =>
        obtain ⟨r, rest, replies, quiet, reached, broke, run⟩ :=
          ask_course whole (on_ensureOpen_first shown fault) rfl
        rw [run]
        exact (h.open shown).request List.mem_cons_self quiet reached broke

/-- What is sent when a conversation is begun is not about documents. -/
theorem start_course (c : Client) (processId : Nat) (root : List Char) :
    ∃ rest extra lastId, (∀ m ∈ extra, Quiet m) ∧ Reached c.input rest ∧
      ((start processId root).on c).2 =
        { c with input := rest, sent := c.sent ++ extra, lastId := lastId } := by
  -- a root that is not absolute fails before anything is sent
  unfold start
  split
  · exact ⟨c.input, [], c.lastId, List.forall_mem_nil _, .start,
      by rw [on_throw, List.append_nil]⟩
  · next uri _ =>
    have first := quiet_initialize (c.lastId + 1) processId (String.ofList uri)
    obtain ⟨heard, behind, r, rest, hears, -, ends, run⟩ :=
      request_course c "initialize" (initializeParams processId (String.ofList uri))
    have begun := List.forall_mem_cons.mpr ⟨first, quiet_replies heard⟩
    have reached := ends.reached (hears.reached .start)
    simp only [on_bind, run]
    cases r with
    | error fault => exact ⟨rest, _, c.lastId + 1, begun, reached, rfl⟩
    | ok result =>
      refine ⟨rest, _, c.lastId + 1, List.forall_mem_append.mpr
        ⟨begun, List.forall_mem_singleton.mpr quiet_initialized⟩, reached, ?_⟩
      simp only [on_notify, List.append_assoc]

theorem Tidy.after_start (h : Tidy input c) (processId : Nat) (root : List Char) :
    Tidy input ((start processId root).on c).2 := by
  obtain ⟨rest, extra, lastId, quiet, reached, run⟩ := start_course c processId root
  rw [run]
  exact h.append quiet reached lastId

theorem Tidy.orderly_sentAfter (h : Tidy input c) : Orderly (sentAfter c) := by
  obtain ⟨r, rest, -, run⟩ := shutdown_course c
  have sent : sentAfter c = (shutdown.on c).2.sent := rfl
  have last : ∀ m ∈ farewell r, Quiet m := by
    cases r with
    | ok => exact List.forall_mem_singleton.mpr quiet_exit
    | error => exact List.forall_mem_nil _
  rw [sent, run]
  exact h.orderly.append (List.forall_mem_cons.mpr ⟨quiet_shutdownMessage _, last⟩)

/-- The client after calls one at a time, each with the disk as it is then, in a conversation begun
with what the server will have written. -/
def afterCalls (processId : Nat) (root : List Char) (input : List UInt8)
    (calls : List (Disk × Query)) : Client :=
  calls.foldl (fun c call => ((ask call.1 call.2).on c).2) ((start processId root).on { input }).2

theorem tidy_afterCalls (processId : Nat) (root : List Char) (input : List UInt8)
    (calls : List (Disk × Query)) : Tidy input (afterCalls processId root input calls) :=
  List.foldlRecOn calls _ ((tidy_begin input).after_start processId root)
    fun _ tidy call _ => tidy.after_ask call.1 call.2

/-- Documents are shown once, before they are asked about. After any calls, whatever the server
writes: the messages sent are in order, also with the end of the conversation. A call about a
document that has been shown sends its request and does not show it again. A call about another
document shows it and then sends its request, if the document can be shown; if not, it fails and
leaves the client as it was, so that the calls that follow go on as if it had not been made. Once a
call has broken off, which it does only where a header tells more than memory can be asked for, a
call about any document fails and leaves the client as it was. -/
theorem documents_shown_before_asked_about (processId : Nat) (root : List Char)
    (input : List UInt8) (calls : List (Disk × Query)) :
    let c := afterCalls processId root input calls
    Orderly c.sent ∧ Orderly (sentAfter c) ∧
    (c.broken = true → Floods input ∧ ∀ disk q, (ask disk q).on c = (.error .poisoned, c)) ∧
    (c.broken = false → ∀ disk q,
      (documentOf q ∈ c.sent.filterMap shows? →
        ∃ r rest replies, (∀ m ∈ replies, Quiet m) ∧ (ask disk q).on c = (r, { c with
          input := rest
          sent := c.sent ++ requestMessage (c.lastId + 1) (methodOf q) (paramsOf q) :: replies
          lastId := c.lastId + 1
          broken := breaksOff r })) ∧
      (documentOf q ∉ c.sent.filterMap shows? → openFault? disk (documentOf q) = none →
        ∃ r rest replies, (∀ m ∈ replies, Quiet m) ∧ (ask disk q).on c = (r, {
          input := rest
          sent := c.sent ++ openMessage disk (documentOf q) ::
            requestMessage (c.lastId + 1) (methodOf q) (paramsOf q) :: replies
          lastId := c.lastId + 1
          opened := documentOf q :: c.opened
          broken := breaksOff r })) ∧
      ∀ fault, documentOf q ∉ c.sent.filterMap shows? →
        openFault? disk (documentOf q) = some fault →
        (ask disk q).on c = (.error fault, c) ∧ ∀ later,
          afterCalls processId root input (calls ++ (disk, q) :: later) =
            afterCalls processId root input (calls ++ later)) := by
  intro c
  have tidy : Tidy input c := tidy_afterCalls processId root input calls
  refine ⟨tidy.orderly, tidy.orderly_sentAfter,
    fun broken => ⟨tidy.broken broken, fun disk q => on_locked_broken broken _⟩,
    fun whole disk q => ⟨?_, ?_, ?_⟩⟩
  · intro shown
    obtain ⟨r, rest, replies, quiet, -, -, run⟩ :=
      ask_course whole (on_ensureOpen_again ((tidy.opened _).mpr shown) disk) rfl
    exact ⟨r, rest, replies, quiet, run⟩
  · intro hidden readable
    obtain ⟨r, rest, replies, quiet, -, -, run⟩ :=
      ask_course whole (on_ensureOpen_first (mt (tidy.opened _).mp hidden) readable) rfl
    refine ⟨r, rest, replies, quiet, run.trans ?_⟩
    rw [List.append_assoc]
    rfl
  · intro fault hidden unreadable
    have same := on_ask_fault whole (mt (tidy.opened _).mp hidden) unreadable
    refine ⟨same, fun later => ?_⟩
    have after : ((ask disk q).on c).2 = c := congrArg Prod.snd same
    rw [afterCalls, afterCalls, List.foldl_append, List.foldl_append, List.foldl_cons]
    exact congrArg (List.foldl _ · later) after

/-- A disk with one document. -/
def page : Disk := { root := .folder [("a.dart", .file [120] false)] }

/-- A server that writes nothing breaks nothing off. -/
theorem not_floods_nil : ¬ Floods [] := by
  have silent : ∀ stream, Reached [] stream → stream = [] := by
    intro stream here
    induction here with
    | start => rfl
    | next _ ih => rw [ih]; rfl
  rintro ⟨stream, rest, here, overflows⟩
  rw [silent stream here] at overflows
  cases overflows.read_eq

/-- A call about a document that is there, then one about a document that is none, then one about
the first again. -/
theorem documents_shown_to_silent_server :
    let calls := [(page, Query.hover "file:///a.dart" ⟨0, 0⟩)]
    let c := afterCalls 1 "/".toList [] calls
    openFault? page "file:///a.dart" = none ∧
    c.broken = false ∧
    c.sent.filterMap shows? = ["file:///a.dart"] ∧
    openFault? page "data:a" = some (.breach .notFilePath) ∧
    (ask page (.symbols "data:a")).on c = (.error (.breach .notFilePath), c) ∧
    ∃ r rest replies, (∀ m ∈ replies, Quiet m) ∧
      (ask page (.symbols "file:///a.dart")).on c = (r, { c with
        input := rest
        sent := c.sent ++ requestMessage (c.lastId + 1) "textDocument/documentSymbol"
          (.object [documentMember "file:///a.dart"]) :: replies
        lastId := c.lastId + 1
        broken := breaksOff r }) := by
  intro calls c
  have readable : openFault? page "file:///a.dart" = none := by cbv
  have unreadable : openFault? page "data:a" = some (.breach .notFilePath) := by cbv
  have whole : ∀ calls, (afterCalls 1 "/".toList [] calls).broken = false := fun calls =>
    Bool.eq_false_iff.mpr fun broken =>
      not_floods_nil ((documents_shown_before_asked_about 1 "/".toList [] calls).2.2.1 broken).1
  have begun : (afterCalls 1 "/".toList [] []).sent.filterMap shows? = [] := by
    obtain ⟨rest, extra, lastId, quiet, -, run⟩ := start_course { input := [] } 1 "/".toList
    rw [afterCalls, List.foldl_nil, run]
    exact shows_of_quiet quiet
  have shown : c.sent.filterMap shows? = ["file:///a.dart"] := by
    have hidden : "file:///a.dart" ∉ (afterCalls 1 "/".toList [] []).sent.filterMap shows? := by
      rw [begun]
      exact List.not_mem_nil
    obtain ⟨r, rest, replies, quiet, run⟩ :=
      ((documents_shown_before_asked_about 1 "/".toList [] []).2.2.2 (whole []) page
        (.hover "file:///a.dart" ⟨0, 0⟩)).2.1 hidden readable
    have last : c = _ := congrArg Prod.snd run
    rw [last, List.filterMap_append, begun, List.filterMap_cons_some (shows?_openMessage _ _),
      List.filterMap_cons_none (shows?_query _ _), shows_of_quiet quiet]
    rfl
  have later := (documents_shown_before_asked_about 1 "/".toList [] calls).2.2.2 (whole calls)
  have missing : "data:a" ∉ c.sent.filterMap shows? := by
    rw [shown]
    decide
  exact ⟨readable, whole calls, shown, unreadable,
    ((later page (.symbols "data:a")).2.2 _ missing unreadable).1,
    (later page (.symbols "file:///a.dart")).1 (shown ▸ List.mem_cons_self)⟩

end CodeAtlas.Session
