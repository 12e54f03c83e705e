import Llamad.Engine.EmbedAlone
import Llamad.Service.Blame

/-!
# The Embed RPC and its batch

Embed answers OK with every input embedded, or not OK and with an empty response.
-/

namespace Llamad

open Logical Semantics Program Session

variable {llama : Llama} {common : Common} {Client : Type}

section Client

variable {config : EngineConfig} {keepGoing : KeepGoing Client} {holds : Client → Prop}

theorem goOn_client (asks : ∀ ask ∈ keepGoing, Preserves holds ask) :
    Preserves (fun session : Session llama Client => holds session.receiver.client)
      (goOn keepGoing) := by
  cases keepGoing with
  | none => exact .pure
  | some ask =>
      intro session kept
      have met := asks ask rfl session.receiver.client kept
      change Meets _ _ (onClient ask session)
      rw [onClient_apply]
      match ran : ask session.receiver.client with
      | (.ok answer, client) =>
          rw [ran] at met
          exact met
      | (.error error, client) =>
          rw [ran] at met
          exact met

/-- An embedding keeps of its client what the client's own answers keep. -/
theorem embed_client (asks : ∀ ask ∈ keepGoing, Preserves holds ask) (inputs : List Bytes) :
    Preserves (fun session : Session llama Client => holds session.receiver.client)
      (embed config inputs keepGoing) := by
  have embedding (tokenized : List (List Token)) (start : EmbedResult llama.Logit) :
      Preserves (fun session : Session llama Client => holds session.receiver.client)
        (embedInputs keepGoing tokenized start) := by
    induction tokenized generalizing start with
    | nil => exact .pure
    | cons tokens rest inductionHypothesis =>
        refine .bind (goOn_client asks) fun going => .ite ?_ .pure
        refine .bind (.zoom_frame fun impl session kept => kept) fun vector => ?_
        exact inductionHypothesis _
  rw [embed]
  exact .ite (.bind .attempt fun tokenized => embedding tokenized {}) .throw

end Client

namespace LlamaService

variable (service : LlamaService common)

/-- What Embed has the engine ask before each input. -/
def stillThere (peer : Peer) : KeepGoing (Call llama common) :=
  some do let cancelled ← Call.isCancelled peer; return !cancelled

/-- The whole batch was embedded, and the response holds what it returned. -/
def AnsweredWhole (peer : Peer) (request : V1.EmbedRequest) (impl : Impl llama)
    (response : V1.EmbedResponse llama.Logit) : Prop :=
  ∃ result, Embeds service.config request.inputs (stillThere peer : KeepGoing (Call llama common))
      (opened impl) result ∧
    result.embeddings.length = request.inputs.length ∧ response = Wire.embedResponse result

/-- Embed answers OK with the whole batch, or with an empty response. -/
theorem handle_embed {pooled : List Token → List llama.Logit} (pools : Pools llama pooled)
    (peer : Peer) (request : V1.EmbedRequest) (impl : Impl llama) :
    let outcome := service.handle peer (.embed request) impl
    let response := outcome.2.receiver.client.response
    outcome.1.code = .ok ∧ service.AnsweredWhole peer request impl response ∨
      outcome.1.code ≠ .ok ∧ response = {} := by
  have asks : ∀ ask ∈ (stillThere peer : KeepGoing (Call llama common)),
      Preserves (fun call => call.response = {}) ask := by
    rintro ask ⟨⟩
    exact .bind (.bind .get fun call => .bind (.modify fun call kept => kept) fun _ => .pure)
      fun cancelled => .pure
  let asked : KeepGoing (Call llama common) := stillThere peer
  have kept : Meets (fun _ session => session.receiver.client.response = {})
      (fun _ session => session.receiver.client.response = {})
      (embed service.config request.inputs asked (opened impl)) :=
    embed_client asks request.inputs (opened impl) rfl
  have met : Meets
      (fun status session =>
        status.code = .ok ∧
            service.AnsweredWhole peer request impl session.receiver.client.response ∨
          status.code ≠ .ok ∧ session.receiver.client.response = {})
      (fun _ session => session.receiver.client.response = {})
      (service.embedBody peer request (opened impl)) := by
    rw [embedBody]
    split
    · exact .inr ⟨by decide, rfl⟩
    split
    · exact .inr ⟨by decide, rfl⟩
    rename_i serves
    change Meets _ _ ((embed service.config request.inputs asked >>= _ :
      Program (Session llama (Call llama common)) Exception Status) (opened impl))
    rcases ran : embed service.config request.inputs asked (opened impl) with
      ⟨error | result, after⟩
    · rw [ran] at kept
      rw [bind_of_error ran]
      exact kept
    · rw [ran] at kept
      rw [bind_of_ok ran]
      split
      · exact .inr ⟨by decide, kept⟩
      · rename_i whole
        have counted := (embedsAlone pools (by simpa using serves)).counts ⟨after, ran⟩
        have within := heard_le asked request.inputs.length (opened impl).receiver.client
        exact .inl ⟨rfl, result, ⟨after, ran⟩, by omega, rfl⟩
  intro outcome response
  rcases ran : service.embedBody peer request (opened impl) with ⟨error | status, after⟩
  · have ends : outcome = (error.status, after) := by
      simp only [outcome, handle, body, guarded, ran]
    rw [ran] at met
    simp only [response, ends]
    exact .inr ⟨error.status_ne_ok, met⟩
  · have ends : outcome = (status, after) := by
      simp only [outcome, handle, body, guarded, ran]
    rw [ran] at met
    simp only [response, ends]
    exact met

/-- The embeddings of an embedding service are independent of their batch and of the past of
its engine, and Embed answers with a whole batch or with none. -/
theorem embed_independent {pooled : List Token → List llama.Logit} (pools : Pools llama pooled)
    (serves : service.config.embeddings = true) :
    EmbedsAlone llama Client service.config ∧
      ∀ peer request (impl : Impl llama),
        let outcome := service.handle peer (.embed request) impl
        let response := outcome.2.receiver.client.response
        outcome.1.code = .ok ∧ service.AnsweredWhole peer request impl response ∨
          outcome.1.code ≠ .ok ∧ response = {} :=
  ⟨embedsAlone pools serves, service.handle_embed pools⟩

end LlamaService

/-- A backend over single bytes whose pooled vector is the sequence it has decoded. -/
def Llama.pooling : Llama :=
  { Llama.bytes fun _ => 256 with
    Host := List Token
    seqRm := fun host _ _ => (.dropped, host)
    decode := fun _ memory batch =>
      (.done 0 fun _ => (0 : Int), memory.tokens ++ batch)
    embeddingsSeq := fun host => some (host.map Int.ofNat) }

/-- An engine on it that has decoded something before. -/
def Impl.pooling : Impl Llama.pooling := ⟨[], ⟨[99], ⟨[99], 0⟩, fun _ => (0 : Int)⟩, []⟩

/-- Two inputs are both answered. -/
theorem LlamaService.embed_independent_pooling :
    ((small true).handle Peer.patient (.embed { inputs := [[97], [98, 97]] })
      Impl.pooling).2.receiver.client.response.embeddings.length = 2 := by
  have pools : Pools Llama.pooling fun tokens => tokens.map Int.ofNat := by
    rintro host tokens evicted logits after ⟨⟩
    rfl
  obtain ⟨_, result, _, whole, answered⟩ | ⟨refused, _⟩ :=
    (@embed_independent _ _ Unit (small true) _ pools rfl).2 Peer.patient
      { inputs := [[97], [98, 97]] } Impl.pooling
  · rw [answered]
    exact whole
  · exact absurd rfl refused

end Llamad
