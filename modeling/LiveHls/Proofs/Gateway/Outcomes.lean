import LiveHls.Proofs.ConfigLoading
import LiveHls.Proofs.Gateway.Removal
import LiveHls.Proofs.Gateway.Turns
import LiveHls.Proofs.Stream.Tellable
/-! How requests over HTTP end. Each is answered with success or with an error of the client, unless
its client has left. No request meets an error of the server, and none is forgotten: its client waits
no longer than until what it asks for is there or the stream stops. -/
namespace LiveHls

namespace Act

/-- What happens through the handlers: nothing has been sent to a client before, and the clock shows
one of the times that there are. -/
def Ordinary (act : Act) : Prop :=
  ∀ made asker now, act.call? = some (made, asker, now) →
    made.headersSent = false ∧ now.natAbs ≤ Timestamp.limit

/-- A request over HTTP asks for something of a stream, not for a page of the server or for nothing
there is. -/
def Handled : Act → Prop
  | .http r _ _ => r.call?.isSome = true
  | .call .. | .disconnect _ | .turn | .sweep .. => True

theorem Ordinary.fresh {act : Act} (ordinary : act.Ordinary) : act.Fresh :=
  fun made asker now calls => (ordinary made asker now calls).1

theorem ordinary_http (r : HttpRequest) (asker : Nat) {now : Int}
    (valid : now.natAbs ≤ Timestamp.limit) : (http r asker now).Ordinary := by
  intro made request time calls
  obtain ⟨own, found, same⟩ := Option.map_eq_some_iff.mp calls
  cases same
  exact ⟨(Gateway.call?_headersSent found).1, valid⟩

end Act

/-- How a request may end; without an answer only if its client has gone. -/
def Reply.Usual (gone : Prop) (reply : Reply) : Prop :=
  (∃ status ∈ [200, 201, 206, 400, 404, 409, 416], reply.status? = some status) ∨
    reply = .unsent ∧ gone

namespace Fault

theorem status?_mem {fault : Fault} {status : Nat} (coded : fault.status? = some status) :
    status ∈ [200, 201, 206, 400, 404, 409, 416] := by
  unfold status? at coded
  split at coded <;> cases coded <;> decide

/-- A failure with a status code is answered with it. -/
theorem reply_status {fault : Fault} {status : Nat} (coded : fault.status? = some status)
    (context : String) (cacheSeconds : Option Float) :
    (fault.reply context cacheSeconds false).2.status? = some status := by
  unfold reply
  split
  · cases coded
  · rw [if_neg Bool.false_ne_true, coded]
    rfl

theorem reply_usual {fault : Fault} (coded : fault.status?.isSome = true) (gone : Prop)
    (context : String) (cacheSeconds : Option Float) :
    (fault.reply context cacheSeconds false).2.Usual gone := by
  obtain ⟨status, coded⟩ := Option.isSome_iff_exists.mp coded
  exact .inl ⟨status, status?_mem coded, reply_status coded context cacheSeconds⟩

end Fault

namespace Origin

variable {o after : Origin} {call : Call} {asker : Nat} {now : Int}

theorem transfer_usual {gone : Prop} {reply : Reply} (usual : reply.Usual gone) (overHttp : Bool) :
    (transfer overHttp reply).Usual gone := by
  rcases usual with ⟨status, listed, same⟩ | ⟨rfl, left⟩
  · exact .inl ⟨status, listed, by rw [transfer_status?, same]⟩
  · exact .inr ⟨rfl, left⟩

/-! ### Replies -/

theorem Answers.usual {reply : Reply} (answers : Answers o call now after reply)
    (unsent : call.headersSent = false)
    (creates : ∃ s, Stream.create call.stream o.settings o.config.windowSize now = .ok s)
    (gone : Prop) : reply.Usual gone := by
  cases answers with
  | @told response usual =>
      refine .inl ⟨response.status, ?_, rfl⟩
      simp only [List.mem_cons, List.not_mem_nil, or_false] at usual ⊢
      omega
  | refused reason =>
      rw [unsent]
      rcases reason with coded | failed
      · exact Fault.reply_usual coded gone _ _
      · obtain ⟨s, created⟩ := creates
        rw [created] at failed
        cases failed
  | @produced i s stepped status text found made sound performed success =>
      refine .inl ⟨status, ?_, rfl⟩
      simp only [List.mem_cons, List.not_mem_nil, or_false] at success ⊢
      omega
  | created unknown created sound performed => exact .inl ⟨201, by decide, rfl⟩
  | removed found => exact .inl ⟨200, by decide, rfl⟩

theorem deliver_usual {client : Client} {outcome : Outcome} {left : List Nat}
    (tellable : Outcome.Tellable left client.request outcome) (unsent : client.headersSent = false) :
    (deliver client outcome).2.Usual (client.request ∈ left) := by
  cases outcome with
  | ok answer =>
      cases answer with
      | playlist playlist => exact .inl ⟨200, by decide, rfl⟩
      | segment response =>
          have success : response.status ∈ [200, 206] := tellable
          refine .inl ⟨response.status, ?_, rfl⟩
          simp only [List.mem_cons, List.not_mem_nil, or_false] at success ⊢
          omega
  | error fault =>
      simp only [deliver, unsent]
      rcases tellable with coded | ⟨rfl, gone⟩
      · exact Fault.reply_usual coded _ _ _
      · exact .inr ⟨rfl, gone⟩

/-! ### What is kept -/

/-- In every stream all that is yet to be told can be told, and only those who have disconnected have
left. -/
structure Sound (disconnected : Nat → Prop) (s : Stream) : Prop where
  regular : s.Regular
  tellable : s.Tellable
  left : ∀ request ∈ s.left, disconnected request

theorem step_left {s : Stream} {event : Event} (stays : ∀ request, event ≠ .leave request) :
    (s.step event).left = s.left := by
  have moves := s.step_moves event
  generalize s.step event = t at moves
  cases moves with
  | produced running made => rfl
  | refused failed => rfl
  | halted running => rfl
  | idle stopped => rfl
  | left request => exact absurd rfl (stays request)
  | playlist reads => exact reads.left
  | segment reads => exact reads.left
  | turn reads => exact reads.left

theorem kept_sound {acts : List Act} {act : Act} (member : act ∈ acts) (ordinary : act.Ordinary) :
    Kept act (Sound fun request => .disconnect request ∈ acts) where
  created created := by
    refine ⟨Stream.create_regular created, Stream.create_tellable created, ?_⟩
    obtain ⟨capacity, -, -, rfl⟩ := (Stream.create_eq_ok_iff ..).mp created
    exact List.forall_mem_nil _
  step := by
    rintro s event given ⟨regular, tellable, left⟩
    refine ⟨(s.step_moves event).regular regular, tellable.step regular ?_, ?_⟩
    · rintro production now rfl
      obtain ⟨sound, made, asker, calls⟩ := given.call
      refine ⟨sound.dated, ?_⟩
      rw [Timestamp.ofMillis, dif_pos (ordinary made asker now calls).2]
      intro invalid
      cases invalid
    · by_cases leaves : ∃ leaver, event = .leave leaver
      · obtain ⟨leaver, rfl⟩ := leaves
        obtain rfl := given.leave
        intro request gone
        rcases List.mem_cons.mp gone with rfl | before
        · exact member
        · exact left request before
      · rw [step_left fun leaver same => leaves ⟨leaver, same⟩]
        exact left

theorem kept_present (act : Act) : Kept act Stream.Present where
  created created := by
    obtain ⟨capacity, -, -, rfl⟩ := (Stream.create_eq_ok_iff ..).mp created
    exact List.forall_mem_nil _
  step := fun {s event} _ present => (s.step_moves event).present present

end Origin

namespace Gateway

variable {g : Gateway} {acts : List Act} {act : Act}

/-- What is delivered to a client can be told to it. -/
theorem act_usual (tended : g.origin.Tended)
    (sound : ∀ s ∈ g.origin.streams, Origin.Sound (fun request => .disconnect request ∈ acts) s)
    (creates : ∀ id now, ∃ s,
      Stream.create id g.origin.settings g.origin.config.windowSize now = .ok s)
    (ordinary : act.Ordinary) (handled : act.Handled) :
    ∀ request reply, (request, reply) ∈ (g.act act).2 → reply.Usual (.disconnect request ∈ acts) := by
  have does := g.act_does act
  generalize (g.act act).1.origin = after at does
  generalize (g.act act).2 = replies at does ⊢
  intro request reply member
  cases does with
  | called made effect =>
      obtain ⟨told, there, same⟩ := List.mem_map.mp member
      cases same
      cases effect with
      | awaited awaits => cases there
      | answered answers =>
          obtain rfl := List.mem_singleton.mp there
          exact Origin.transfer_usual
            (answers.usual (ordinary _ _ _ made).1 (creates _ _) _) _
  | page static =>
      rw [Act.Handled, static] at handled
      cases handled
  | turn takes =>
      cases takes with
      | stale queue nothing same => cases member
      | undelivered turned clients unawaited => cases member
      | @delivered i s next client outcome turned waiting delivered clients =>
          cases List.mem_singleton.mp member
          obtain ⟨-, tellable, left⟩ := sound s (List.mem_of_getElem? turned.found)
          have usual := Origin.deliver_usual (tellable.delivery delivered)
            (tended.unsent client waiting)
          refine Origin.transfer_usual ?_ client.overHttp
          exact usual.imp_right fun ⟨unsent, gone⟩ => ⟨unsent, left client.request gone⟩
  | disconnect leaver => cases member
  | idle quiet => cases member
  | sweep cleanup now => cases member

/-- A call is answered at once, or its client waits. -/
theorem act_taken {made : Call} {asker : Nat} {now : Int}
    (calls : act.call? = some (made, asker, now)) :
    (∃ reply, (g.act act).2 = [(asker, reply)]) ∨
      (g.act act).2 = [] ∧ ∃ client ∈ (g.act act).1.origin.clients, client.request = asker := by
  have does := g.act_does act
  generalize (g.act act).1.origin = after at does ⊢
  generalize (g.act act).2 = replies at does ⊢
  cases does with
  | called own effect =>
      rw [calls] at own
      cases own
      cases effect with
      | answered answers => exact .inl ⟨_, rfl⟩
      | awaited awaits =>
          obtain ⟨client, clients, named, -⟩ := awaits.client
          exact .inr ⟨rfl, client, by simp [clients], named⟩
  | page static =>
      rw [Act.call?, static] at calls
      cases calls
  | disconnect leaver | turn takes | idle quiet | sweep cleanup now => cases calls

/-- How requests fare at a gateway that has been through some acts. -/
structure Dependable (g : Gateway) (acts : List Act) : Prop where
  /-- What is replied is success or an error of the client, or nothing once the client has left. -/
  usual : ∀ act : Act, act.Ordinary → act.Handled → ∀ request reply,
    (request, reply) ∈ (g.act act).2 → reply.Usual (.disconnect request ∈ acts)
  /-- A call is answered at once, or its client waits. -/
  taken : ∀ (act : Act) made asker now, act.call? = some (made, asker, now) →
    (∃ reply, (g.act act).2 = [(asker, reply)]) ∨
      (g.act act).2 = [] ∧ ∃ client ∈ (g.act act).1.origin.clients, client.request = asker
  /-- When all turns that are due have been taken, only those wait who have not left, for what their
  streams do not have yet, and these streams run. -/
  waiting : ∀ n, g.origin.work ≤ n → ∀ client ∈ (g.run (.replicate n .turn)).origin.clients,
    ∃ s, (g.run (.replicate n .turn)).origin.streams[client.stream]? = some s ∧ s.stopped = false ∧
      client.request ∉ s.left ∧ ∃ waiter ∈ s.waiters.parked, waiter.tag.request = client.request ∧
        waiter.target.evaluate s.window none = .pending
  /-- A playlist is served at once only from a window with segments, all of which start at a valid
  time. -/
  listable : ∀ s ∈ g.origin.streams, ∀ what : PlaylistRequest,
    what.plan s.window s.settings.partLimit = .serve → s.window.Listable
  /-- A playlist is served after a wait only from such a window, and whoever is held at the end of a
  segment finds the segment in the window with which it goes on. -/
  goesOn : ∀ s ∈ g.origin.streams, ∀ ticket w, .resume ticket (.ok w) ∈ s.turns →
    ticket.stage.GoesOn w
  /-- A master playlist is given only if it can be rendered. -/
  master : ∀ s ∈ g.origin.streams, ∀ text, s.masterPlaylist = .ok (some text) →
    Playlist.renderMaster s.window = .ok text

theorem masterPlaylist_rendered {s : Stream} {text : String}
    (given : s.masterPlaylist = .ok (some text)) : Playlist.renderMaster s.window = .ok text := by
  unfold Stream.masterPlaylist at given
  split at given
  · cases given
  · rw [Playlist.renderMaster, Except.ok.inj given]

/-- Whoever still waits when all turns that are due have been taken waits for what is not there. -/
theorem run_turns_waiting (tended : g.origin.Tended) (regular : ∀ s ∈ g.origin.streams, s.Regular)
    (present : ∀ s ∈ g.origin.streams, s.Present) {n : Nat} (enough : g.origin.work ≤ n) :
    ∀ client ∈ (g.run (.replicate n .turn)).origin.clients,
      ∃ s, (g.run (.replicate n .turn)).origin.streams[client.stream]? = some s ∧
        s.stopped = false ∧ client.request ∉ s.left ∧
          ∃ waiter ∈ s.waiters.parked, waiter.tag.request = client.request ∧
            waiter.target.evaluate s.window none = .pending := by
  intro client member
  obtain ⟨s, there, waiter, parked, own⟩ := run_turns_parked tended enough client member
  have regular : s.Regular :=
    run_forall (fun act _ => Origin.kept_regular act) regular s (List.mem_of_getElem? there)
  have present : s.Present :=
    run_forall (fun act _ => Origin.kept_present act) present s (List.mem_of_getElem? there)
  refine ⟨s, there, ?_, own ▸ present waiter parked, waiter, parked, own,
    regular.pending waiter parked⟩
  by_contra stopped
  have emptied := (regular.closed (by simpa using stopped)).1
  rw [emptied] at parked
  cases parked

/-- In whatever order requests are made, streams come and go, turns are taken and clients leave, under
every configuration that is loaded, with whatever reader of documents: no request over HTTP meets an
error of the server. -/
theorem no_request_meets_a_server_error (read : String → Option Yaml) (around : Surroundings)
    (log : LogControl) (acts : List Act) (ordinary : ∀ act ∈ acts, act.Ordinary) :
    (run ⟨.create (Config.loadBy read around).config.streamingConfig, log⟩ acts).Dependable acts := by
  generalize loaded : (Config.loadBy read around).config.streamingConfig = streaming
  generalize start : (⟨.create streaming, log⟩ : Gateway) = g
  have empty : g.origin.streams = [] := by rw [← start]; rfl
  have config : (g.run acts).origin.config = streaming := by
    rw [run_config, ← start]
    rfl
  have tended : (g.run acts).origin.Tended := by
    refine run_tended (fun act member => (ordinary act member).fresh) ?_
    rw [← start]
    exact Origin.create_tended _
  have sound : ∀ s ∈ (g.run acts).origin.streams,
      Origin.Sound (fun request => .disconnect request ∈ acts) s :=
    run_forall (fun act member => Origin.kept_sound member (ordinary act member))
      (empty ▸ List.forall_mem_nil _)
  have present : ∀ s ∈ (g.run acts).origin.streams, s.Present :=
    run_forall (fun act _ => Origin.kept_present act) (empty ▸ List.forall_mem_nil _)
  refine ⟨?usual, ?taken, ?waiting, ?listable, ?goesOn, ?master⟩
  case usual =>
    intro act ordinary handled
    refine act_usual tended sound (fun id now => ?_) ordinary handled
    rw [config, ← loaded]
    exact Config.loadBy_creates read around id _ now
  case taken => exact fun act made asker now calls => act_taken calls
  case waiting =>
    exact fun n => run_turns_waiting tended (fun s member => (sound s member).regular) present
  case listable =>
    intro s member what served
    exact ⟨PlaylistRequest.plan_serve served, (sound s member).tellable.timed⟩
  case goesOn => exact fun s member ticket w turn => (sound s member).tellable.turns _ turn
  case master => exact fun s member text given => masterPlaylist_rendered given

/-- There is no file to load a configuration from. Of two requests that wait one is told that its
stream has been deleted, and the client of the other leaves. -/
theorem no_request_meets_a_server_error_of_three :
    let around : Surroundings := ⟨"config.yaml", "", .absent, []⟩
    let log : LogControl := ⟨⟨"", "", .absent, []⟩, "info", Yaml.parse?⟩
    let acts : List Act := [.http ⟨"PUT", "/live/cam/segment/0.m4s", [], [7]⟩ 0 1,
      .http ⟨"GET", "/live/cam/playlist.m3u8?_HLS_msn=1", [], []⟩ 1 2,
      .http ⟨"GET", "/live/cam/segment/1.m4s", [], []⟩ 2 3, .disconnect 2,
      .http ⟨"DELETE", "/live/cam", [], []⟩ 3 4]
    let start : Gateway := ⟨.create (Config.load around).config.streamingConfig, log⟩
    (∀ act ∈ acts, act.Ordinary) ∧
    (start.replies (acts ++ List.replicate 4 .turn)).map (fun (request, reply) =>
      (request, reply.status?)) = [(0, some 201), (3, some 200), (2, none), (1, some 404)] ∧
    ((start.run acts).run (.replicate (start.run acts).origin.work .turn)).origin.clients = [] ∧
    (start.run acts).Dependable acts := by
  intro around log acts start
  have ordinary : ∀ act ∈ acts, act.Ordinary := by
    intro act member
    simp only [acts, List.mem_cons, List.not_mem_nil, or_false] at member
    rcases member with rfl | rfl | rfl | rfl | rfl
    · exact Act.ordinary_http _ _ (by decide)
    · exact Act.ordinary_http _ _ (by decide)
    · exact Act.ordinary_http _ _ (by decide)
    · exact fun made asker now calls => by cases calls
    · exact Act.ordinary_http _ _ (by decide)
  have dependable : (start.run acts).Dependable acts :=
    no_request_meets_a_server_error Yaml.parse? around log acts ordinary
  refine ⟨ordinary, by decide +kernel, ?_, dependable⟩
  exact List.length_eq_zero_iff.mp (by decide +kernel)

end Gateway
end LiveHls
