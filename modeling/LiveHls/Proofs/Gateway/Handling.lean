import LiveHls.Origin.Cleanup
import LiveHls.Proofs.Gateway.Effects
/-! What the origin does to its streams and its clients. A call is answered at once, or one stream
takes the request and the client waits; all else that happens are steps of single streams. -/
namespace LiveHls

/-- The turns that a stream takes are those of its requests. -/
theorem Stream.turn_step {s : Stream} {next : Turn} {rest : List Turn} (turns : s.turns = next :: rest) :
    ∃ log, s.turn = some (s.step (.turn next.request), log, s.delivery (.turn next.request)) := by
  have first := turnOf_head turns
  have there : s.turn.isSome = true := by
    unfold turn
    rw [turns]
    cases next with
    | resume ticket outcome => rfl
    | relay request steps outcome =>
        cases steps with
        | zero => rfl
        | succ steps => rfl
  obtain ⟨⟨stepped, log, outcome?⟩, taken⟩ := Option.isSome_iff_exists.mp there
  rw [taken] at first
  refine ⟨log, ?_⟩
  simp only [taken, step, delivery, first, Option.bind_some]

namespace Origin

variable {o : Origin} {request asker : Nat}

/-- Streams take steps that do not make the request, and new streams come. -/
inductive Evolves (request : Nat) (streams : List Stream) : List Stream → Prop
  | refl : Evolves request streams streams
  | step {later : List Stream} {i : Nat} {s : Stream} {event : Event}
      (before : Evolves request streams later) (found : later[i]? = some s)
      (unasked : event.asks ≠ some request) :
      Evolves request streams (later.set i (s.step event))
  | add {later : List Stream} {id : String} {settings : Settings} {size : Float} {now : Int}
      {s : Stream} (before : Evolves request streams later)
      (created : Stream.create id settings size now = .ok s) :
      Evolves request streams (later ++ [s])

theorem Evolves.trans {streams middle later : List Stream}
    (first : Evolves request streams middle) (second : Evolves request middle later) :
    Evolves request streams later := by
  induction second with
  | refl => exact first
  | step before found unasked ih => exact ih.step found unasked
  | add before created ih => exact ih.add created

/-- The call has been answered, and no client waits for it. -/
structure Answered (o after : Origin) (reply? : Option Reply) : Prop where
  replied : reply?.isSome
  clients : after.clients = o.clients
  streams : ∀ request, Evolves request o.streams after.streams

/-- A stream has taken the request, and its client waits. -/
structure Awaited (asker : Nat) (o after : Origin) (reply? : Option Reply) (i : Nat) (s : Stream)
    (event : Event) : Prop where
  unanswered : reply? = none
  found : o.streams[i]? = some s
  asks : event.asks = some asker
  streams : after.streams = o.streams.set i (s.step event)
  client : ∃ client, after.clients = o.clients ++ [client] ∧ client.request = asker ∧
    client.stream = i

/-- What a call can come to. -/
def Handles (asker : Nat) (o after : Origin) (reply? : Option Reply) : Prop :=
  Answered o after reply? ∨ ∃ i s event, Awaited asker o after reply? i s event

theorem Handles.map {after : Origin} {reply? : Option Reply} (handles : Handles asker o after reply?)
    (f : Reply → Reply) : Handles asker o after (reply?.map f) := by
  rcases handles with ⟨replied, clients, streams⟩ | ⟨i, s, event, awaited⟩
  · exact .inl ⟨by simpa using replied, clients, streams⟩
  · refine .inr ⟨i, s, event, ?_, awaited.found, awaited.asks, awaited.streams, awaited.client⟩
    rw [awaited.unanswered]
    rfl

theorem answered_same (o : Origin) (reply : Reply) : Answered o o (some reply) :=
  ⟨rfl, rfl, fun _ => .refl⟩

/-- The stream at a place has taken a step. -/
theorem Answered.onStream {after : Origin} {reply? : Option Reply} {i : Nat} {s : Stream}
    {event : Event} {stepped : Stream × Log} (answered : Answered o after reply?)
    (found : after.streams[i]? = some s) (unasked : event.asks = none)
    (same : stepped.1 = s.step event) :
    Answered o (after.onStream i s stepped).1 reply? := by
  refine ⟨answered.replied, answered.clients, fun request => ?_⟩
  have streams : (after.onStream i s stepped).1.streams = after.streams.set i (s.step event) := by
    rw [← same]
    rfl
  rw [streams]
  exact (answered.streams request).step found (unasked ▸ nofun)

theorem Answers.answered {after : Origin} {call : Call} {now : Int} {reply : Reply}
    (answers : Answers o call now after reply) : Answered o after (some reply) := by
  cases answers with
  | told usual => exact answered_same o _
  | refused reason => exact answered_same o _
  | produced found made sound performed success =>
      exact (answered_same o _).onStream (find?_streams found) rfl
        (Stream.step_call_ok performed).symm
  | @created s new stepped unknown created sound performed =>
      have added : Answered o (o.add s) (some (.sent (.plain 201 "Created"))) :=
        ⟨rfl, rfl, fun _ => .add .refl created⟩
      exact added.onStream List.getElem?_concat_length rfl (Stream.step_call_ok performed).symm
  | @removed i s found =>
      have stopped := (answered_same o .unsent).onStream (find?_streams found)
        (@rfl _ Event.stop.asks) (@rfl _ s.stop.1)
      exact ⟨rfl, stopped.clients, stopped.streams⟩

theorem Effect.handles {after : Origin} {call : Call} {now : Int} {reply? : Option Reply}
    (effect : Effect o call asker now after reply?) : Handles asker o after reply? := by
  cases effect with
  | answered answers => exact .inl answers.answered
  | @awaited i s event awaits =>
      obtain ⟨client, clients, named, place, -⟩ := awaits.client
      exact .inr ⟨i, s, event, rfl, find?_streams awaits.found, awaits.asks, awaits.streams, client,
        clients, named, place⟩

/-! ### Turns, clients that leave and streams that are removed -/

/-- A stream has taken its next turn, and the turns that have come up by that are queued. -/
structure Turned (o after : Origin) (i : Nat) (s : Stream) (next : Turn) : Prop where
  found : o.streams[i]? = some s
  turns : ∃ rest, s.turns = next :: rest
  streams : after.streams = o.streams.set i (s.step (.turn next.request))
  queue : ∃ rest, o.queue = i :: rest ∧ after.queue = rest ++
    List.replicate ((s.step (.turn next.request)).turns.length - (s.turns.length - 1)) i
  names : after.names = o.names
  config : after.config = o.config

/-- What a turn comes to. If a stream hands out an outcome by that and a client waits for it, the
client is sent a reply. -/
inductive Takes (o after : Origin) : Option (Nat × Reply) → Prop
  | stale {i : Nat} {rest : List Nat} (queue : o.queue = i :: rest)
      (nothing : ∀ s, o.streams[i]? = some s → s.turns = [])
      (same : after = { o with queue := rest }) : Takes o after none
  | undelivered {i : Nat} {s : Stream} {next : Turn} (turned : Turned o after i s next)
      (clients : after.clients = o.clients)
      (unawaited : ∀ told outcome, s.delivery (.turn next.request) = some (told, outcome) →
        ∀ client ∈ o.clients, client.request ≠ told) : Takes o after none
  | delivered {i : Nat} {s : Stream} {next : Turn} {client : Client} {outcome : Outcome}
      (turned : Turned o after i s next) (waiting : client ∈ o.clients)
      (delivered : s.delivery (.turn next.request) = some (client.request, outcome))
      (clients : after.clients = o.clients.filter (·.request ≠ client.request)) :
      Takes o after (some (client.request, transfer client.overHttp (deliver client outcome).2))

theorem turn_taken {after : Origin} {log : Log} {reply? : Option (Nat × Reply)} {i : Nat}
    {rest : List Nat} {s : Stream} {next : Turn} {later : List Turn} (queue : o.queue = i :: rest)
    (found : o.streams[i]? = some s) (turns : s.turns = next :: later)
    (taken : o.turn = some (after, log, reply?)) : Takes o after reply? := by
  obtain ⟨lines, same⟩ := Stream.turn_step turns
  unfold turn at taken
  rw [queue] at taken
  simp only [found, Option.bind_some, same, Option.map_some, update] at taken
  cases delivery : s.delivery (.turn next.request) with
  | none =>
      rw [delivery] at taken
      cases taken
      exact .undelivered ⟨found, ⟨later, turns⟩, rfl, ⟨rest, queue, rfl⟩, rfl, rfl⟩ rfl
        fun told outcome same => by simp [delivery] at same
  | some told =>
      obtain ⟨asker, outcome⟩ := told
      rw [delivery] at taken
      simp only at taken
      cases waiting : o.clients.find? (·.request = asker) with
      | none =>
          rw [waiting] at taken
          cases taken
          refine .undelivered ⟨found, ⟨later, turns⟩, rfl, ⟨rest, queue, rfl⟩, rfl, rfl⟩ rfl ?_
          rintro told other same client member rfl
          rw [delivery] at same
          cases same
          simpa using List.find?_eq_none.mp waiting client member
      | some client =>
          rw [waiting] at taken
          cases taken
          obtain rfl : client.request = asker := by simpa using List.find?_some waiting
          exact .delivered ⟨found, ⟨later, turns⟩, rfl, ⟨rest, queue, rfl⟩, rfl, rfl⟩
            (List.mem_of_find?_eq_some waiting) delivery rfl

theorem turn_takes {after : Origin} {log : Log} {reply? : Option (Nat × Reply)}
    (taken : o.turn = some (after, log, reply?)) : Takes o after reply? := by
  cases queue : o.queue with
  | nil =>
      simp only [turn, queue] at taken
      cases taken
  | cons i rest =>
      cases found : o.streams[i]? with
      | none =>
          simp only [turn, queue, found, Option.bind_none] at taken
          cases taken
          exact .stale queue (fun s there => by rw [found] at there; cases there) rfl
      | some s =>
          cases turns : s.turns with
          | nil =>
              have idle : s.turn = none := by
                unfold Stream.turn
                rw [turns]
              simp only [turn, queue, found, Option.bind_some, idle, Option.map_none] at taken
              cases taken
              refine .stale queue (fun t there => ?_) rfl
              rw [found] at there
              cases there
              exact turns
          | cons next later => exact turn_taken queue found turns taken

theorem disconnect_clients (o : Origin) (leaver : Nat) :
    (o.disconnect leaver).1.clients = o.clients := by
  unfold disconnect
  split
  · rfl
  · split
    · rfl
    · rfl

/-- The stream that the client of a request waits for is told that it leaves. -/
theorem disconnect_streams {leaver : Nat} {client : Client} {s : Stream}
    (waiting : o.clients.find? (·.request = leaver) = some client)
    (found : o.streams[client.stream]? = some s) :
    (o.disconnect leaver).1.streams = o.streams.set client.stream (s.step (.leave leaver)) := by
  unfold disconnect
  simp only [waiting, found]
  rfl

theorem disconnect_evolves (o : Origin) (leaver : Nat) :
    Evolves request o.streams (o.disconnect leaver).1.streams := by
  cases waiting : o.clients.find? (·.request = leaver) with
  | none =>
      simp only [disconnect, waiting]
      exact .refl
  | some client =>
      cases found : o.streams[client.stream]? with
      | none =>
          simp only [disconnect, waiting, found]
          exact .refl
      | some s =>
          rw [disconnect_streams waiting found]
          exact .step .refl found nofun

theorem removeFrom_evolves (now cutoff : Int) (names : List (String × Nat)) (o : Origin) :
    Evolves request o.streams (Cleanup.removeFrom now cutoff names o).1.streams ∧
      (Cleanup.removeFrom now cutoff names o).1.clients = o.clients := by
  induction names generalizing o with
  | nil => exact ⟨.refl, rfl⟩
  | cons name rest ih =>
      obtain ⟨id, i⟩ := name
      unfold Cleanup.removeFrom
      cases found : o.streams[i]? with
      | none => exact ih o
      | some s =>
          simp only
          split
          · obtain ⟨evolves, clients⟩ := ih (o.retire id i s).1
            have stopped : Evolves request o.streams (o.retire id i s).1.streams :=
              @Evolves.step _ _ _ _ _ .stop .refl found nofun
            exact ⟨stopped.trans evolves, clients⟩
          · exact ih o

end Origin

namespace Gateway

open Origin (Handles answered_same)

theorem call_handles (g : Gateway) (call : Call) (asker : Nat) (now : Int) :
    Handles asker g.origin (g.call call asker now).1.origin (g.call call asker now).2.2 :=
  (dispatch_effect g.origin call asker now).handles.map _

theorem http_handles (g : Gateway) (r : HttpRequest) (asker : Nat) (now : Int) :
    Handles asker g.origin (g.http r asker now).1.origin (g.http r asker now).2.2 := by
  cases made : r.call? with
  | none =>
      obtain ⟨origin, replied⟩ := @http_page g r made asker now
      rw [origin]
      exact .inl ⟨replied, rfl, fun _ => .refl⟩
  | some call =>
      obtain ⟨origin, reply⟩ := @http_call g r call made asker now
      rw [origin, reply]
      exact g.call_handles call asker now

end Gateway

end LiveHls
