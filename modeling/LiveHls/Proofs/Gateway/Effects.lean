import LiveHls.Gateway
import LiveHls.Proofs.Answerable
import LiveHls.Proofs.Binary64.Sums
import LiveHls.Proofs.Stream.Course
/-! What a call makes of the origin. A call that is answered at once has changed nothing, or one
stream has carried out what the producer asked for, or a stream has come or gone; a call that is not
answered has been taken by one stream, and its client waits. All that is shown of the origin follows
from these few cases. -/
namespace LiveHls

/-- The status that a client is sent. -/
def Reply.status? : Reply → Option Nat
  | .sent response => some response.status
  | .unsent | .unmatched => none

namespace Origin

@[simp] theorem transfer_status? (overHttp : Bool) (reply : Reply) :
    (transfer overHttp reply).status? = reply.status? := by
  cases reply with
  | sent response =>
      cases overHttp with
      | true => rfl
      | false => rfl
  | unsent => rfl
  | unmatched => rfl

/-- What a call that is answered at once makes of the origin. -/
inductive Answers (o : Origin) (call : Call) (now : Int) : Origin → Reply → Prop
  | told {response : Http.Response} (usual : response.status ∈ [200, 400, 404]) :
      Answers o call now o (.sent response)
  /-- Only a stream that cannot be created has a fault without a status code. -/
  | refused {fault : Fault} {context : String} {cacheSeconds : Option Float}
      (reason : fault.status?.isSome = true ∨
        Stream.create call.stream o.settings o.config.windowSize now = .error fault) :
      Answers o call now o (fault.reply context cacheSeconds call.headersSent).2
  | produced {i : Nat} {s : Stream} {stepped : Stream × Log} {status : Nat} {text : String}
      (found : o.find? call.stream = some (i, s)) (made : ProducerCall) (sound : made.Sound)
      (performed : s.perform now made = .ok stepped) (success : status ∈ [200, 201]) :
      Answers o call now (o.onStream i s stepped).1 (.sent (.plain status text))
  | created {s : Stream} {new : NewSegment} {stepped : Stream × Log}
      (unknown : o.find? call.stream = none)
      (created : Stream.create call.stream o.settings o.config.windowSize now = .ok s)
      (sound : (ProducerCall.put new).Sound) (performed : s.perform now (.put new) = .ok stepped) :
      Answers o call now ((o.add s).onStream o.streams.length s stepped).1
        (.sent (.plain 201 "Created"))
  | removed {i : Nat} {s : Stream} (found : o.find? call.stream = some (i, s)) :
      Answers o call now (o.retire call.stream i s).1 (.sent (.plain 200 "OK"))

/-- A running stream has taken the request of a call, and its client waits. -/
structure Awaits (o : Origin) (call : Call) (asker : Nat) (after : Origin) (i : Nat) (s : Stream)
    (event : Event) : Prop where
  found : o.find? call.stream = some (i, s)
  running : s.stopped = false
  asks : event.asks = some asker
  streams : after.streams = o.streams.set i (s.step event)
  names : after.names = o.names
  config : after.config = o.config
  settings : after.settings = o.settings
  queue : after.queue = o.queue ++ List.replicate ((s.step event).turns.length - s.turns.length) i
  client : ∃ client, after.clients = o.clients ++ [client] ∧ client.request = asker ∧
    client.stream = i ∧ client.headersSent = call.headersSent

/-- What a call makes of the origin. -/
inductive Effect (o : Origin) (call : Call) (asker : Nat) (now : Int) (after : Origin) :
    Option Reply → Prop
  | answered {reply : Reply} (answers : Answers o call now after reply) :
      Effect o call asker now after (some reply)
  | awaited {i : Nat} {s : Stream} {event : Event} (awaits : Awaits o call asker after i s event) :
      Effect o call asker now after none

variable {o : Origin} {call : Call} {asker : Nat} {now : Int} {log : Log}

theorem find?_streams {id : String} {i : Nat} {s : Stream} (found : o.find? id = some (i, s)) :
    o.streams[i]? = some s := by
  obtain ⟨place, -, same⟩ := Option.bind_eq_some_iff.mp found
  obtain ⟨stream, there, pair⟩ := Option.map_eq_some_iff.mp same
  cases pair
  exact there

/-! ### The producer -/

/-- The call is answered at once. -/
def AtOnce (o : Origin) (call : Call) (now : Int) (handled : Handled) : Prop :=
  ∃ reply, handled.reply = some reply ∧ Answers o call now handled.origin reply

theorem answer_atOnce {response : Http.Response} (usual : response.status ∈ [200, 400, 404]) :
    AtOnce o call now (call.answer o log response) := ⟨_, rfl, .told usual⟩

theorem refuse_atOnce {fault : Fault} {context : String} {cacheSeconds : Option Float}
    (coded : fault.status?.isSome = true) :
    AtOnce o call now (call.refuse o log fault context cacheSeconds) :=
  ⟨_, rfl, .refused (.inl coded)⟩

theorem withStream_atOnce {go : Nat → Stream → Handled}
    (each : ∀ i s, o.find? call.stream = some (i, s) → AtOnce o call now (go i s)) :
    AtOnce o call now (o.withStream call go) := by
  unfold withStream
  cases found : o.find? call.stream with
  | none => exact answer_atOnce (by decide)
  | some place => exact each place.1 place.2 found

/-- What is read of a new segment has a whole sequence and no invalid start time. -/
theorem readNewSegment_eq_ok {init : Bytes} {new : NewSegment}
    (read : readNewSegment call init = .ok new) :
    (∃ n : Nat, new.number = .whole n) ∧ (ProducerCall.put new).Dated := by
  obtain ⟨n, -, read⟩ := bind_eq_ok read
  obtain ⟨startTime, time, read⟩ := bind_eq_ok read
  cases read
  exact ⟨⟨n, rfl⟩, readTime_ne_invalid time⟩

/-- Durations are read only if they are not negative. -/
theorem duration_nonneg {name : String} {param : Http.Param} {seconds : Float}
    (read : param.duration name = .ok (some seconds)) : 0.0 ≤ seconds := by
  cases param with
  | missing | structured => cases read
  | text s =>
      unfold Http.Param.duration at read
      simp only at read
      generalize (if (Text.trim s.toList).isEmpty then Binary64.notANumber
        else Decimal.number s) = x at read
      split at read
      · rename_i fine
        cases read
        obtain ⟨finite, sign⟩ := (Bool.and_eq_true _ _).mp fine
        exact Binary64.nonneg_of_finite finite (by simpa using sign)
      · cases read

theorem required_eq_ok {α : Type} {name : String} {x : Except Fault (Option α)} {a : α}
    (ok : Http.Param.required name x = .ok a) : x = .ok (some a) := by
  cases x with
  | error fault => cases ok
  | ok found =>
      cases found with
      | none => cases ok
      | some b =>
          cases ok
          rfl

theorem readPart_measured {data : Bytes} {sequence : Nat} {part : Part} {discontinuity : Bool}
    (read : readPart call data = .ok (sequence, part, discontinuity)) : 0.0 ≤ part.duration := by
  obtain ⟨n, -, read⟩ := bind_eq_ok read
  obtain ⟨seconds, given, read⟩ := bind_eq_ok read
  cases read
  exact duration_nonneg (required_eq_ok given)

theorem readSeal_measured {sequence : Nat} {duration : Option Float}
    (read : readSeal call = .ok (sequence, duration)) : ∀ seconds ∈ duration, 0.0 ≤ seconds := by
  obtain ⟨n, -, read⟩ := bind_eq_ok read
  obtain ⟨seconds?, given, read⟩ := bind_eq_ok read
  cases read
  rintro seconds rfl
  exact duration_nonneg given

/-- A stream that nothing has happened to takes any first segment. -/
theorem create_put {id : String} {settings : Settings} {size : Float} {s : Stream}
    {new : NewSegment} {n : Nat} (created : Stream.create id settings size now = .ok s)
    (whole : new.number = .whole n) : ∃ stepped, s.put new now = .ok stepped := by
  obtain ⟨capacity, -, -, rfl⟩ := (Stream.create_eq_ok_iff id settings size now s).mp created
  obtain ⟨w, made⟩ : ∃ w, Window.empty.put capacity new now = .ok w := by
    unfold Window.put Window.accept
    rw [whole]
    exact ⟨_, rfl⟩
  obtain ⟨log, done⟩ := @Stream.perform_made (Stream.fresh id settings capacity now) now (.put new) w
    rfl made
  exact ⟨_, done⟩

theorem putSegment_atOnce (o : Origin) (call : Call) (now : Int) :
    AtOnce o call now (o.putSegment call now) := by
  unfold putSegment
  cases call.body.getD [] with
  | nil => exact answer_atOnce (by decide)
  | cons first rest =>
      simp only
      cases read : readNewSegment call (first :: rest) with
      | error fault => exact refuse_atOnce (readNewSegment_answerable _ _ fault read)
      | ok new =>
          obtain ⟨⟨n, whole⟩, dated⟩ := readNewSegment_eq_ok read
          simp only [findOrCreate]
          cases found : o.find? call.stream with
          | some place =>
              obtain ⟨i, s⟩ := place
              simp only
              cases done : s.put new now with
              | error fault => exact refuse_atOnce (s.perform_answerable now (.put new) fault done)
              | ok stepped =>
                  exact ⟨_, rfl, .produced found (.put new) ⟨dated, trivial⟩ done (by decide)⟩
          | none =>
              simp only
              cases created : Stream.create call.stream o.settings o.config.windowSize now with
              | error fault => exact ⟨_, rfl, .refused (.inr created)⟩
              | ok s =>
                  obtain ⟨stepped, done⟩ := create_put created whole
                  simp only [Except.map, done]
                  exact ⟨_, rfl, .created found created ⟨dated, trivial⟩ done⟩

theorem putPart_atOnce (o : Origin) (call : Call) (now : Int) :
    AtOnce o call now (o.putPart call now) := by
  refine withStream_atOnce fun i s found => ?_
  cases call.body.getD [] with
  | nil => exact answer_atOnce (by decide)
  | cons first rest =>
      simp only
      cases read : readPart call (first :: rest) with
      | error fault => exact refuse_atOnce (readPart_answerable _ _ fault read)
      | ok what =>
          obtain ⟨sequence, part, discontinuity⟩ := what
          simp only
          cases done : s.append (.whole sequence) part discontinuity now with
          | error fault =>
              exact refuse_atOnce
                (s.perform_answerable now (.append (.whole sequence) part discontinuity) fault done)
          | ok stepped =>
              exact ⟨_, rfl,
                .produced found (.append _ part discontinuity) ⟨trivial, readPart_measured read⟩ done
                  (by decide)⟩

theorem sealSegment_atOnce (o : Origin) (call : Call) (now : Int) :
    AtOnce o call now (o.sealSegment call now) := by
  refine withStream_atOnce fun i s found => ?_
  cases read : readSeal call with
  | error fault => exact refuse_atOnce (readSeal_answerable _ fault read)
  | ok what =>
      obtain ⟨sequence, duration⟩ := what
      simp only
      cases done : s.close (.whole sequence) duration now with
      | error fault =>
          exact refuse_atOnce
            (s.perform_answerable now (.close (.whole sequence) duration) fault done)
      | ok stepped =>
          exact ⟨_, rfl, .produced found (.close _ duration) ⟨trivial, readSeal_measured read⟩ done
            (by decide)⟩

theorem delete_atOnce (o : Origin) (call : Call) (now : Int) :
    AtOnce o call now (o.delete call) :=
  withStream_atOnce fun _ _ found => ⟨_, rfl, .removed found⟩

/-! ### Readers -/

theorem withRunning_cases (o : Origin) (call : Call) (now : Int) (what : String)
    (go : Nat → Stream → Handled) :
    AtOnce o call now (o.withRunning call what go) ∨
      ∃ i s, o.find? call.stream = some (i, s) ∧ s.stopped = false ∧
        o.withRunning call what go = go i s := by
  unfold withRunning
  cases found : o.find? call.stream with
  | none => exact .inl (answer_atOnce (by decide))
  | some place =>
      obtain ⟨i, s⟩ := place
      simp only
      split
      · exact .inl (answer_atOnce (by decide))
      · rename_i running
        exact .inr ⟨i, s, rfl, Bool.eq_false_iff.mpr running, rfl⟩

theorem master_atOnce (o : Origin) (call : Call) (now : Int) :
    AtOnce o call now (o.master call) := by
  rcases o.withRunning_cases call now _ _ with answered | ⟨i, s, -, -, same⟩
  · exact answered
  · unfold master
    rw [same]
    cases Playlist.masterText? s.window with
    | some text => exact answer_atOnce List.mem_cons_self
    | none => exact answer_atOnce (by decide)

theorem init_atOnce (o : Origin) (call : Call) (now : Int) : AtOnce o call now (o.init call) := by
  rcases o.withRunning_cases call now _ _ with answered | ⟨i, s, -, -, same⟩
  · exact answered
  · unfold init
    rw [same]
    cases s.initSection with
    | some data => exact answer_atOnce List.mem_cons_self
    | none => exact answer_atOnce (by decide)

theorem AtOnce.effect {handled : Handled} (atOnce : AtOnce o call now handled) :
    Effect o call asker now handled.origin handled.reply := by
  obtain ⟨reply, replied, answers⟩ := atOnce
  rw [replied]
  exact .answered answers

theorem await_effect {i : Nat} {s : Stream} {event : Event} {stepped : Stream × Log}
    (found : o.find? call.stream = some (i, s)) (running : s.stopped = false)
    (asks : event.asks = some asker) (same : stepped.1 = s.step event) (wanted : Wanted)
    (context : String) :
    Effect o call asker now (o.await call asker i s stepped wanted context).origin
      (o.await call asker i s stepped wanted context).reply := by
  refine .awaited ⟨found, running, asks, ?_, rfl, rfl, rfl, ?_, _, rfl, rfl, rfl, rfl⟩
  · rw [← same]
    rfl
  · rw [← same]
    rfl

theorem playlist_effect (o : Origin) (call : Call) (asker : Nat) (now : Int) :
    Effect o call asker now (o.playlist call asker).origin (o.playlist call asker).reply := by
  rcases o.withRunning_cases call now _ _ with answered | ⟨i, s, found, running, same⟩
  · exact answered.effect
  · unfold playlist
    rw [same]
    cases read : readDirectives call with
    | error fault => exact (refuse_atOnce (readDirectives_answerable call fault read)).effect
    | ok what => exact await_effect found running (@rfl _ (Event.playlist asker what).asks) rfl _ _

theorem segment_effect (o : Origin) (call : Call) (asker : Nat) (now : Int) :
    Effect o call asker now (o.segment call asker).origin (o.segment call asker).reply := by
  rcases o.withRunning_cases call now _ _ with answered | ⟨i, s, found, running, same⟩
  · exact answered.effect
  · unfold segment
    rw [same]
    cases read : call.sequence.integer "sequence" with
    | error fault =>
        exact (refuse_atOnce (Http.Param.integer_answerable _ _ fault read)).effect
    | ok sequence? =>
        cases sequence? with
        | none => exact (answer_atOnce (by decide)).effect
        | some sequence =>
            have go : ∀ range, Effect o call asker now _ _ := fun range =>
              await_effect found running
                (@rfl _ (Event.segment asker (.whole sequence) range).asks) rfl .segment
                s!"[{call.stream}] Segment {call.sequenceText}"
            simp only
            cases Http.RangeHeader.parse call.range with
            | none => exact go none
            | range first last => exact go (some ⟨first, last⟩)
            | unsatisfiable => exact AtOnce.effect (refuse_atOnce rfl)

end Origin

/-- The call that a request over HTTP makes, unless it asks for a page of the server or nothing. -/
def HttpRequest.call? (r : HttpRequest) : Option Call :=
  match Http.Target.resource? (Http.Target.path r.target.toList) with
  | some (.stream id what) =>
      (Gateway.operation? r.method what).map fun (operation, sequence) =>
        { operation
          stream := id
          sequence
          query := Http.Query.parse (Http.Target.query r.target.toList)
          range := r.headers.lookup "range"
          body := if r.method = "PUT" then some r.body else none
          headersSent := false
          overHttp := true }
  | _ => none

/-- The operations of a producer. -/
def Operation.isProduction : Operation → Bool
  | .putSegment | .putPart | .seal | .delete => true
  | .playlist | .master | .segment | .init => false

namespace Gateway

open Origin (AtOnce Effect)

theorem dispatch_atOnce (o : Origin) {call : Call} (production : call.operation.isProduction = true)
    (asker : Nat) (now : Int) : AtOnce o call now (dispatch o call asker now) := by
  unfold dispatch
  revert production
  match call.operation with
  | .putSegment => exact fun _ => o.putSegment_atOnce call now
  | .putPart => exact fun _ => o.putPart_atOnce call now
  | .seal => exact fun _ => o.sealSegment_atOnce call now
  | .delete => exact fun _ => o.delete_atOnce call now
  | .playlist | .master | .segment | .init => exact nofun

theorem dispatch_effect (o : Origin) (call : Call) (asker : Nat) (now : Int) :
    Effect o call asker now (dispatch o call asker now).origin (dispatch o call asker now).reply := by
  unfold dispatch
  match call.operation with
  | .putSegment => exact (o.putSegment_atOnce call now).effect
  | .putPart => exact (o.putPart_atOnce call now).effect
  | .seal => exact (o.sealSegment_atOnce call now).effect
  | .delete => exact (o.delete_atOnce call now).effect
  | .playlist => exact o.playlist_effect call asker now
  | .master => exact (o.master_atOnce call now).effect
  | .segment => exact o.segment_effect call asker now
  | .init => exact (o.init_atOnce call now).effect

/-! ### Over HTTP -/

variable {g : Gateway} {r : HttpRequest}

theorem call?_headersSent {call : Call} (made : r.call? = some call) :
    call.headersSent = false ∧ call.overHttp = true := by
  unfold HttpRequest.call? at made
  split at made
  · obtain ⟨operation, -, rfl⟩ := Option.map_eq_some_iff.mp made
    exact ⟨rfl, rfl⟩
  · cases made

theorem http_call {call : Call} (made : r.call? = some call) (request : Nat) (now : Int) :
    (g.http r request now).1 = (g.call call request now).1 ∧
      (g.http r request now).2.2 = (g.call call request now).2.2 := by
  unfold HttpRequest.call? at made
  split at made
  · rename_i id what resource
    obtain ⟨operation, found, rfl⟩ := Option.map_eq_some_iff.mp made
    simp only [http, resource, serve, found, and_self]
  · cases made

theorem changeLevel_origin (g : Gateway) (query : Http.Query) :
    (g.changeLevel query).1.origin = g.origin := by
  unfold changeLevel
  split
  · rfl
  · rfl
  · rfl
  · split
    · rfl
    · rfl

/-- A request that makes no call is answered, and the origin stays as it is. -/
theorem http_page (static : r.call? = none) (request : Nat) (now : Int) :
    (g.http r request now).1.origin = g.origin ∧ (g.http r request now).2.2.isSome := by
  unfold HttpRequest.call? at static
  unfold http
  cases resource : Http.Target.resource? (Http.Target.path r.target.toList) with
  | none => exact ⟨rfl, rfl⟩
  | some what =>
      cases what with
      | stream id what =>
          rw [resource] at static
          simp [serve, Option.map_eq_none_iff.mp static]
      | unreadable => exact ⟨rfl, rfl⟩
      | home | report =>
          simp only [serve]
          split
          · exact ⟨rfl, rfl⟩
          · exact ⟨rfl, rfl⟩
      | logLevel =>
          simp only [serve]
          split
          · exact ⟨changeLevel_origin .., rfl⟩
          · exact ⟨rfl, rfl⟩

end Gateway

end LiveHls
