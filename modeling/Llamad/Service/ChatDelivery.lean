import Llamad.Chat.ContentDelivery
import Llamad.Service.Delivery
import Llamad.Service.Statelessness

/-!
# What a Chat call delivers

For a client that stays, a Chat call is the output parser run over what the stream filter lets
through of the sampled text: its texts are what the parser shows, and its finish carries the calls
of the final parse.
-/

namespace Llamad

open Logical Logical.Utf8 Semantics Program Session

variable {llama : Llama} {common : Common}

namespace Stream

variable {state : ParseState common} {rng : common.Rng}

theorem partialParses_snoc (before : Bytes) (texts : List Bytes) (text : Bytes) :
    partialParses state before (texts ++ [text]) =
      partialParses state before texts ++
        (partialParse state (before ++ texts.flatten) text).toList := by
  induction texts generalizing before with
  | nil => simp [partialParses]
  | cons first texts inductionHypothesis =>
      rw [List.cons_append, partialParses, partialParses, inductionHypothesis, List.flatten_cons,
        List.append_assoc, List.append_assoc]

theorem atEnd_snoc (texts : List Bytes) (text : Bytes) :
    atEnd state rng (texts ++ [text]) =
      ((atEnd state rng texts).receiveAll
        (partialParse state texts.flatten text).toList).grow text := by
  have joined : (texts ++ [text]).flatten = texts.flatten ++ text := by simp
  rw [atEnd, atEnd, partialParses_snoc, receiveAll_append, receiveAll_grow, grow_grow, joined,
    List.nil_append]

/-- A push behind some others. -/
theorem push_atEnd (standard : ThrowsStandard common state) (texts : List Bytes) (text : Bytes) :
    ∃ shown, push text (atEnd state rng texts) = (.ok shown, atEnd state rng (texts ++ [text])) ∧
      (atEnd state rng (texts ++ [text])).emitted =
        (atEnd state rng texts).emitted ++ shown := by
  have throwsStandard : ThrowsStandard common (atEnd state rng texts).state := by
    rwa [atEnd_state]
  obtain ⟨shown, pushed, emitted⟩ := push_eq throwsStandard text
  rw [atEnd_state, atEnd_accumulated] at pushed emitted
  rw [atEnd_snoc]
  exact ⟨shown, pushed, emitted⟩

/-- A parser whose content only grows is shown whole. -/
theorem emitted_append_tail {texts : List Bytes} {final : CommonChatMsg} {last : Final}
    (parses : common.chatParse texts.flatten false state = .ok final)
    (refined : ∀ front next, front <+: texts.flatten →
      common.chatParse front true state = .ok next → next.content <+: final.content)
    (finished : (finish (atEnd state rng texts)).1 = .ok last) :
    (atEnd state rng texts).emitted ++ last.contentTail = final.content := by
  have within : (atEnd state rng texts).emitted <+: final.content := by
    refine receiveAll_emitted_within (fun next member => ?_) List.nil_prefix
    obtain ⟨front, leads, parse⟩ := mem_partialParses member
    exact refined front next leads parse
  have whole : common.chatParse (atEnd state rng texts).accumulated false
      (atEnd state rng texts).state = .ok final := by
    rwa [atEnd_accumulated, atEnd_state]
  obtain ⟨other, after, ran, content⟩ := finish_content whole within
  rw [ran] at finished
  cases finished
  exact content

end Stream

section Parsing

variable {peer : Peer} {state : ParseState common} {rng : common.Rng}

/-- A call of Chat whose parser was given some chunks, and whose texts have all been accepted. -/
structure Call.Parsing (state : ParseState common) (rng : common.Rng) (call : Call llama common)
    (chunks : List Bytes) : Prop where
  parser : call.stream = some (Stream.atEnd state rng chunks)
  there : call.clientGone = false
  texts : ∃ texts : List Bytes, attempted call.log = texts.map .text ∧
    texts.flatten = (Stream.atEnd state rng chunks).emitted

/-- The events of a text for a client that stays. -/
def wrote (text : Bytes) : List Event := if text = [] then [] else [.wrote (.text text) true]

theorem attempted_wrote_text {log : List Event} {texts : List Bytes}
    (same : attempted log = texts.map .text) (text : Bytes) :
    ∃ more : List Bytes, attempted (log ++ .asked false :: wrote text) = more.map .text ∧
      more.flatten = texts.flatten ++ text := by
  by_cases blank : text = []
  · refine ⟨texts, ?_, by simp [blank]⟩
    rw [attempted_append, same]
    simp [wrote, blank]
  · refine ⟨texts ++ [text], ?_, by simp⟩
    have written : attempted (.asked false :: wrote text) = [.text text] := by
      rw [wrote, if_neg blank]
      rfl
    rw [attempted_append, same, written, List.map_append]
    rfl

/-- What the parser of a client that stays lets out is written to it. -/
theorem Call.hear_of_parser (stays : peer.Stays) (text : Bytes) {call : Call llama common}
    {stream after : Stream common} {shown : Bytes} (parser : call.stream = some stream)
    (pushed : Stream.push text stream = (.ok shown, after)) :
    Call.hear peer text call = (.ok true, { call with
      stream := some after
      log := call.log ++ .asked false :: wrote shown }) := by
  obtain ⟨_, clientGone, response, log⟩ := call
  cases parser
  by_cases blank : shown = []
  · simp [Call.hear, Call.isCancelled, Call.onStream, bind_apply, stays.isCancelled, pushed, wrote,
      blank]
  · simp [Call.hear, Call.isCancelled, Call.onStream, Call.writeText, Call.write, bind_apply,
      stays.isCancelled, stays.write, pushed, wrote, blank]

theorem Call.Parsing.hear (stays : peer.Stays) (standard : Stream.ThrowsStandard common state)
    {call : Call llama common} {chunks : List Bytes} (parsing : call.Parsing state rng chunks)
    (text : Bytes) :
    (Call.hear peer text call).1 = .ok true ∧
      (Call.hear peer text call).2.Parsing state rng (chunks ++ [text]) := by
  obtain ⟨shown, pushed, emitted⟩ := @Stream.push_atEnd _ state rng standard chunks text
  obtain ⟨texts, same, flatten⟩ := parsing.texts
  obtain ⟨more, sameMore, flattenMore⟩ := attempted_wrote_text same shown
  rw [Call.hear_of_parser stays text parsing.parser pushed]
  exact ⟨rfl, rfl, parsing.there, more, sameMore, by rw [flattenMore, flatten, emitted]⟩

theorem Call.parsing_rule (stays : peer.Stays) (standard : Stream.ThrowsStandard common state) :
    CallbackRule (Call.onChunk peer)
      (fun receiver : Receiver (Call llama common) =>
        receiver.client.Parsing state rng receiver.chunks)
      (fun _ => False) (fun receiver => receiver.client.Parsing state rng receiver.chunks) := by
  refine ⟨fun chunk receiver parsing => ?_, fun _ parsing => parsing⟩
  by_cases blank : chunk = []
  · simpa [StreamFilter.deliver, blank] using parsing
  · obtain ⟨accepted, heard⟩ := parsing.hear stays standard chunk
    simp only [StreamFilter.deliver, blank, if_false, Call.onChunk]
    rcases ran : Call.hear peer chunk receiver.client with ⟨outcome, client⟩
    rw [ran] at accepted heard
    cases accepted
    simpa [Receiver.chunks] using heard

theorem Call.note_agrees_parsing (stays : peer.Stays)
    (standard : Stream.ThrowsStandard common state) :
    StreamFilter.Agree (fun call : Call llama common => ∃ chunks, call.Parsing state rng chunks)
      (Call.hear peer) (Call.note peer) := by
  constructor
  · rintro text call ⟨chunks, parsing⟩
    exact Prod.ext (parsing.hear stays standard text).1 rfl
  · rintro text call ⟨chunks, parsing⟩
    exact ⟨_, (parsing.hear stays standard text).2⟩

/-- A client that stays is written what the final parse adds, and the finish. -/
theorem Call.conclude_of_parser (stays : peer.Stays) (result : GenerateResult)
    {call : Call llama common} {stream after : Stream common} {last : Stream.Final}
    (parser : call.stream = some stream) (there : call.clientGone = false)
    (finished : Stream.finish stream = (.ok last, after)) :
    Call.conclude peer result call = (.ok (), { call with
      stream := some after
      log := call.log ++ .asked false :: wrote last.contentTail ++
        [.wrote (Wire.finishChunk result.reason result.stats last.toolCalls) true] }) := by
  obtain ⟨_, _, response, log⟩ := call
  cases parser
  cases there
  by_cases blank : last.contentTail = []
  · simp [Call.conclude, Call.noteCancelled, Call.finishStream, Call.writeFinish, Call.isCancelled,
      Call.onStream, Call.write, bind_apply, stays.isCancelled, stays.write, finished, wrote, blank]
  · simp [Call.conclude, Call.noteCancelled, Call.finishStream, Call.writeFinish, Call.isCancelled,
      Call.onStream, Call.write, Call.writeText, bind_apply, stays.isCancelled, stays.write,
      finished, wrote, blank]

/-- The final parse of a parser that throws nothing else returns. -/
theorem finish_returns (standard : Stream.ThrowsStandard common state) (rng : common.Rng)
    (chunks : List Bytes) :
    ∃ last after, Stream.finish (Stream.atEnd state rng chunks) = (.ok last, after) := by
  obtain ⟨parse, _⟩ | ⟨_, _, ran⟩ | ⟨_, _, _, ran⟩ | ⟨_, _, _, ran⟩ :=
    Stream.finish_cases (Stream.atEnd state rng chunks)
  · rw [Stream.atEnd_state] at parse
    exact absurd parse (standard _ _)
  · exact ⟨_, _, ran⟩
  · exact ⟨_, _, ran⟩
  · exact ⟨_, _, ran⟩

variable (service : LlamaService common)

/-- What a call asks the engine that renders a conversation. -/
def LlamaService.asks (peer : Peer) (entropy : llama.Entropy) (rng : common.Rng)
    (request : V1.ChatRequest) (rendered : RenderedChat common) (state : ParseState common) :
    Request llama (Call llama common) where
  entropy := entropy
  prompt := rendered.prompt
  params := LlamaService.chatParams request rendered
  onChunk := Call.onChunk peer
  client := { stream := some (Stream.fresh state rng) }

/-- A Chat call that succeeds has rendered its conversation before it took the mutex. -/
theorem prepare_chat_of_ok {entropy : llama.Entropy} {request : V1.ChatRequest} {impl : Impl llama}
    (ok : (service.handle peer (.chat entropy rng request) impl).1.code = .ok) :
    ∃ format rendered state, service.chatFormat = some format ∧
      LlamaService.renderRequest format request = .ok rendered ∧
      rendered.parseState = some state ∧
      service.prepare peer (.chat entropy rng request) =
        .inr (.generating (LlamaService.asks peer entropy rng request rendered state) .entering,
          ⟨(LlamaService.asks peer entropy rng request rendered state).client, []⟩) := by
  have handled := service.handle_eq_resume
    (fun _ : Unit => (peer, LlamaService.Rpc.chat entropy rng request)) () impl
  rw [handled] at ok
  simp only [LlamaService.prepare] at ok ⊢
  split at ok
  · cases ok
  rename_i nonempty
  split at ok
  · cases ok
  rename_i generates
  rw [if_neg nonempty, if_neg generates]
  split at ok
  · cases ok
  rename_i format chosen
  split at ok
  · rename_i error rendering
    exact absurd ok error.status_ne_ok
  rename_i rendered stream rendering
  obtain ⟨other, render, rendering'⟩ := except_bind_eq_ok_iff.mp rendering
  obtain ⟨opened, streams, same⟩ := except_bind_eq_ok_iff.mp rendering'
  cases same
  rw [ChatFormat.stream] at streams
  split at streams
  · cases streams
  rename_i state parser
  cases streams
  exact ⟨format, rendered, state, chosen, render, parser, rfl⟩

/-- What the engine hands to a Chat client that stays: its parser has been given exactly what the
filter shows of the sampled text. -/
theorem asks_parsed (stays : peer.Stays) (standard : Stream.ThrowsStandard common state)
    {config : EngineConfig} {entropy : llama.Entropy} {request : V1.ChatRequest}
    {rendered : RenderedChat common} {impl : Impl llama} {result : GenerateResult}
    {after : Session llama (Call llama common)}
    (ran : serve config (LlamaService.asks peer entropy rng request rendered state) impl =
      (.ok result, after)) :
    after.receiver.client.Parsing state rng after.receiver.chunks ∧
      ∃ resolved tokens pieces,
        Sampled (LlamaService.chatParams request rendered) after.impl.log result resolved tokens
          pieces ∧ result.reason ≠ .cancelled ∧
        (∃ statuses, statuses.length = pieces.length ∧
          StreamFilter.Passes (LlamaService.chatParams request rendered).stop pieces statuses
            after.receiver.chunks ∧ (result.reason = .stop ↔ .stopped ∈ statuses)) ∧
        ((∀ stop ∈ (LlamaService.chatParams request rendered).stop, Valid stop) →
          ValidPrefix pieces.flatten →
          StreamFilter.Shows (LlamaService.chatParams request rendered).stop pieces.flatten
            after.receiver.chunks.flatten (result.reason = .stop)) := by
  let start : Session llama (Call llama common) :=
    ⟨{ impl with log := [] }, ⟨{ stream := some (Stream.fresh state rng) }, []⟩⟩
  have drains := generate_drains config entropy rendered.prompt
    (LlamaService.chatParams request rendered) (Call.onChunk peer) start
  have parses := @CallbackRule.generate llama _ config _ _ _ _
    (@Call.parsing_rule llama common peer state rng stays standard) entropy
    rendered.prompt (LlamaService.chatParams request rendered) start
    ⟨rfl, rfl, [], rfl, rfl⟩
  change Meets _ _ (serve config
    (LlamaService.asks peer entropy rng request rendered state) impl) at drains parses
  rw [ran] at drains parses
  obtain ⟨resolved, tokens, pieces, statuses, drains⟩ := drains
  have noted := drains.of_agree (@Call.note_agrees_parsing llama _ _ state rng stays
    standard) ⟨[], rfl, rfl, [], rfl, rfl⟩
  exact ⟨parses.resolve_right id, resolved, tokens, pieces, drains.sampled_only rfl,
    noted.uncancelled Call.note_accepts,
    ⟨statuses, noted.taken, noted.passes Call.note_accepts, noted.stopped⟩,
    noted.shows Call.note_accepts⟩

/-- What a Chat call delivered: `tokens` were sampled, with the texts `pieces`, of which the filter
let `chunks` through to the parser, whose final parse gave `last`; the client got `texts` and
`finish`. -/
structure ChatDelivers (state : ParseState common) (rng : common.Rng) (params : SamplingParams)
    (after : Session llama (Call llama common)) (resolved : ResolvedTokens) (tokens : List Token)
    (pieces chunks : List Bytes) (result : GenerateResult) (last : Stream.Final)
    (texts : List Bytes) (finish : V1.Finish) : Prop where
  generated : Sampled params after.impl.log result resolved tokens pieces
  uncancelled : result.reason ≠ .cancelled
  /-- The chunks are a run of the filter over these texts, which took all of them. -/
  passed : ∃ statuses, statuses.length = pieces.length ∧
    StreamFilter.Passes params.stop pieces statuses chunks ∧
      (result.reason = .stop ↔ .stopped ∈ statuses)
  /-- What that shows of text that is text. -/
  filtered : (∀ stop ∈ params.stop, Valid stop) → ValidPrefix pieces.flatten →
    StreamFilter.Shows params.stop pieces.flatten chunks.flatten (result.reason = .stop)
  /-- The client got what a run of the parser over these chunks returned. -/
  parsed : ∃ shown stream,
    Stream.run chunks (Stream.fresh state rng) = (.ok (shown, last), stream) ∧
      texts.flatten = shown.flatten ++ last.contentTail
  stream : attempted after.receiver.client.log = texts.map .text ++ [.finish finish]
  finished : Wire.finishChunk result.reason result.stats last.toolCalls = .finish finish
  /-- Where the content only grows with the text, it arrives whole. -/
  content : ∀ message, common.chatParse chunks.flatten false state = .ok message →
    (∀ front next, front <+: chunks.flatten → common.chatParse front true state = .ok next →
      next.content <+: message.content) → texts.flatten = message.content

/-- What a Chat call delivers to a client that stays, whatever the parser makes of the text as
long as it throws nothing but `std::exception`: the parser is run over what the filter shows of
the sampled text, its content is written as it appears, and the finish carries what the final
parse returns. -/
theorem chat_text (stays : peer.Stays)
    (standard : ∀ state : ParseState common, Stream.ThrowsStandard common state)
    (entropy : llama.Entropy) (rng : common.Rng) (request : V1.ChatRequest) (impl : Impl llama)
    (ok : (service.handle peer (.chat entropy rng request) impl).1.code = .ok) :
    ∃ format rendered state resolved tokens pieces chunks result last texts finish,
      service.chatFormat = some format ∧
      LlamaService.renderRequest format request = .ok rendered ∧
      rendered.parseState = some state ∧
      ChatDelivers state rng (LlamaService.chatParams request rendered)
        (service.handle peer (.chat entropy rng request) impl).2 resolved tokens pieces chunks
        result last texts finish := by
  obtain ⟨format, rendered, state, chosen, render, parser, prepared⟩ :=
    prepare_chat_of_ok service ok
  have handled := LlamaService.handle_of_generating prepared impl
  rw [handled] at ok ⊢
  rcases ran : serve service.config (LlamaService.asks peer entropy rng request rendered state)
    impl with ⟨error | result, after⟩
  · rw [ran] at ok
    exact absurd ok error.status_ne_ok
  obtain ⟨parsing, resolved, tokens, pieces, generated, uncancelled, passed, filtered⟩ :=
    asks_parsed stays (standard state) ran
  obtain ⟨last, stream, finished⟩ := finish_returns (standard state) rng after.receiver.chunks
  have concluded := Call.conclude_of_parser stays result parsing.parser parsing.there finished
  obtain ⟨shown, sameShown, flatten⟩ := parsing.texts
  obtain ⟨texts, sameTexts, flattenTexts⟩ := attempted_wrote_text sameShown last.contentTail
  obtain ⟨finish, isFinish, _⟩ :=
    Wire.finishChunk_consistent result.reason result.stats last.toolCalls
  have whole : texts.flatten =
      (Stream.atEnd state rng after.receiver.chunks).emitted ++ last.contentTail := by
    rw [flattenTexts, flatten]
  refine ⟨format, rendered, state, resolved, tokens, pieces, after.receiver.chunks, result, last,
    texts, finish, chosen, render, parser, ?_⟩
  refine ⟨generated, uncancelled, passed, filtered, ?_, ?_, isFinish, fun message parse refined => ?_⟩
  · obtain ⟨outputs, same, ran⟩ := Stream.run_eq (standard state) rng after.receiver.chunks
    exact ⟨outputs, stream, ran _ _ finished, by rw [whole, same]⟩
  · simp only [Except.map, LlamaService.concludeBody, guarded, LlamaService.onCall, bind_apply,
      zoom_apply, concluded, pure_apply]
    rw [attempted_append, sameTexts, isFinish]
    rfl
  · rw [whole]
    exact Stream.emitted_append_tail parse refined (congrArg Prod.fst finished)

end Parsing

end Llamad
