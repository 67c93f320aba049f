import LiveHls.Proofs.Gateway.Effects
import LiveHls.Proofs.Gateway.Run
import LiveHls.Proofs.Stream.Procedure
/-! Calls of producers that fail. Whatever the reason, and however deep it lies, nothing has changed
by the time it is found. -/
namespace LiveHls

namespace Origin

variable {o after : Origin} {call : Call} {now : Int}

/-- A call either succeeds or leaves the origin as it is. -/
theorem Answers.success_or_same {reply : Reply} (answers : Answers o call now after reply) :
    (∃ status ∈ [200, 201], reply.status? = some status) ∨ after = o := by
  cases answers with
  | told usual => exact .inr rfl
  | refused reason => exact .inr rfl
  | produced found made sound performed success => exact .inl ⟨_, success, rfl⟩
  | created unknown created sound performed => exact .inl ⟨201, by decide, rfl⟩
  | removed found => exact .inl ⟨200, by decide, rfl⟩

/-- Whoever is told of a failure has not changed the origin. -/
theorem Effect.same_of_failure {reply? : Option Reply} {asker status : Nat}
    (effect : Effect o call asker now after reply?) (told : reply?.bind Reply.status? = some status)
    (failure : 400 ≤ status) : after = o := by
  cases effect with
  | awaited awaits => cases told
  | @answered reply answers =>
      have told : reply.status? = some status := told
      rcases answers.success_or_same with ⟨success, listed, same⟩ | same
      · obtain rfl : success = status := Option.some.inj (same.symm.trans told)
        simp only [List.mem_cons, List.not_mem_nil, or_false] at listed
        omega
      · exact same

end Origin

namespace Gateway

variable {g : Gateway} {request : Nat} {now : Int} {status : Nat}

theorem call_status? (g : Gateway) (call : Call) (request : Nat) (now : Int) :
    (g.call call request now).2.2.bind Reply.status? =
      (dispatch g.origin call request now).reply.bind Reply.status? := by
  simp only [Gateway.call]
  cases (dispatch g.origin call request now).reply with
  | none => rfl
  | some reply => exact Origin.transfer_status? _ _

theorem call_same_of_failure {call : Call}
    (told : (g.call call request now).2.2.bind Reply.status? = some status)
    (failure : 400 ≤ status) : (g.call call request now).1 = g := by
  rw [call_status?] at told
  have same := (dispatch_effect g.origin call request now).same_of_failure told failure
  simp only [Gateway.call, same]

theorem http_same_of_failure {r : HttpRequest}
    (told : (g.http r request now).2.2.bind Reply.status? = some status)
    (failure : 400 ≤ status) : (g.http r request now).1.origin = g.origin := by
  cases made : r.call? with
  | none => exact (http_page made request now).1
  | some call =>
      obtain ⟨after, reply⟩ := @http_call g r call made request now
      rw [reply] at told
      rw [after, call_same_of_failure told failure]

theorem production_success_or_same {call : Call}
    (production : call.operation.isProduction = true) (request : Nat) (now : Int) :
    ∃ reply, (g.call call request now).2.2 = some reply ∧
      ((∃ status ∈ [200, 201], reply.status? = some status) ∨ (g.call call request now).1 = g) := by
  obtain ⟨reply, replied, answers⟩ := dispatch_atOnce g.origin production request now
  refine ⟨Origin.transfer call.overHttp reply, by simp only [Gateway.call, replied, Option.map_some],
    ?_⟩
  rw [Origin.transfer_status?]
  refine answers.success_or_same.imp_right fun same => ?_
  simp only [Gateway.call, same]

/-- A call of a producer is answered at once, and it succeeds or leaves everything as it is. Over
HTTP, whatever is answered with a status from 400 on has changed no stream and no waiting request,
and no stream has come. The calls on a stream change it step by step, and where one fails, the
stream is as it was before. -/
theorem failed_production_changes_nothing (g : Gateway) (request : Nat) (now : Int) :
    (∀ r status, (g.http r request now).2.2.bind Reply.status? = some status → 400 ≤ status →
      (g.http r request now).1.origin = g.origin) ∧
    (∀ call : Call, call.operation.isProduction = true →
      ∃ reply, (g.call call request now).2.2 = some reply ∧
        ((∃ status ∈ [200, 201], reply.status? = some status) ∨
          (g.call call request now).1 = g)) ∧
    ∀ (s : Stream) (made : ProducerCall), (Procedure.perform now made).run s =
      match s.perform now made with
      | .ok (t, _) => .ok () t
      | .error fault => .error fault s := by
  refine ⟨fun r status => http_same_of_failure, fun call production => ?_, fun s made => ?_⟩
  · exact production_success_or_same production request now
  · exact Procedure.run_perform s now made

/-- While a playlist request waits for the second segment, the seal of a fifth is refused, and the
request still waits. A first segment whose start time cannot be read makes no stream. -/
theorem failed_production_changes_nothing_while_waiting :
    let config : StreamingConfig := ⟨4.0, 1.0, 2.0⟩
    let g := run ⟨.create config, ⟨⟨"", "", .absent, []⟩, "info", Yaml.parse?⟩⟩
      [.http ⟨"PUT", "/live/cam/segment/0.m4s", [], [7]⟩ 0 1,
        .http ⟨"GET", "/live/cam/playlist.m3u8?_HLS_msn=1", [], []⟩ 1 2]
    let late : HttpRequest := ⟨"POST", "/live/cam/segment/5/seal", [], []⟩
    let misdated : HttpRequest := ⟨"PUT", "/live/new/segment/0.m4s?startTime=today", [], [7]⟩
    g.origin.streams.map (·.waiters.size) = [1] ∧ g.origin.names = [("cam", 0)] ∧
    (g.http late 2 3).2.2.bind Reply.status? = some 409 ∧ (g.http late 2 3).1.origin = g.origin ∧
    (g.http misdated 2 3).2.2.bind Reply.status? = some 400 ∧
      (g.http misdated 2 3).1.origin = g.origin := by
  intro config g late misdated
  have refused : (g.http late 2 3).2.2.bind Reply.status? = some 409 := by decide +kernel
  have unread : (g.http misdated 2 3).2.2.bind Reply.status? = some 400 := by decide +kernel
  obtain ⟨unchanged, -, -⟩ := failed_production_changes_nothing g 2 3
  exact ⟨by decide +kernel, by decide +kernel, refused, unchanged late 409 refused (by decide),
    unread, unchanged misdated 400 unread (by decide)⟩

end Gateway

end LiveHls
