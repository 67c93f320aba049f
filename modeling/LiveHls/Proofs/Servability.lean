import LiveHls.Proofs.BufferCalls
import LiveHls.Proofs.PlaylistPlan
/-! Playlist requests that can be served. What a window serves at once every later window serves at
once, too, until the segment named has left it; and what has left it never comes back. -/
namespace LiveHls

namespace Window

variable {w v : Window}

theorem lastSequence_nonneg (h : Consecutive w.segments) (nonempty : w.segments ≠ []) :
    0 ≤ w.lastSequence := by
  obtain ⟨first, rest, segments⟩ := List.exists_cons_of_ne_nil nonempty
  have newest := le_lastSequence h (segments ▸ List.mem_cons_self)
  omega

theorem Precedes.nonempty (h : Consecutive w.segments) (precedes : w.Precedes v)
    (nonempty : w.segments ≠ []) : v.segments ≠ [] := by
  intro empty
  have forward := precedes.lastSequence
  have newest := lastSequence_nonneg h nonempty
  rw [lastSequence_nil empty] at forward
  omega

theorem isEvicted_of_neg (nonempty : w.segments ≠ []) {s : Int} (negative : s < 0) :
    w.isEvicted s = true := by
  obtain ⟨first, rest, segments⟩ := List.exists_cons_of_ne_nil nonempty
  rw [isEvicted_of_head segments]
  exact decide_eq_true (by omega)

end Window

namespace PlaylistRequest

open Window

variable {w v : Window} {limit : PartLimit}

/-! ### Requests for what is lost -/

theorem planNext_ne_evicted (s : Int) (part : Option Int) (limit : PartLimit) (number : Numeral) :
    planNext s part limit ≠ .refuse (.evicted number) := by
  unfold planNext
  cases part with
  | none => exact nofun
  | some part =>
      simp only
      split <;> exact nofun

theorem planPresent_ne_evicted (a : Segment) (s last : Int) (part : Option Int) (limit : PartLimit)
    (number : Numeral) : planPresent a s last part limit ≠ .refuse (.evicted number) := by
  unfold planPresent
  cases part with
  | none =>
      simp only
      split <;> exact nofun
  | some part =>
      simp only
      split
      · exact nofun
      · split <;> exact nofun

/-- A request is refused as lost if its segment has left the window, or if there can be no such
segment. -/
theorem plan_eq_evicted_iff (h : Consecutive w.segments) (s n : Int) (part : Option Int) :
    (PlaylistRequest.mk (some s) part).plan w limit = .refuse (.evicted (.whole n)) ↔
      n = s ∧ (w.isEvicted s = true ∨ s < 0) := by
  constructor
  · intro refused
    unfold plan at refused
    simp only at refused
    split_ifs at refused with beyond gone next
    · cases refused
    · cases refused
      exact ⟨rfl, .inl gone⟩
    · exact absurd refused (planNext_ne_evicted _ _ _ _)
    · split at refused
      · rename_i missing
        cases refused
        refine ⟨rfl, .inr ?_⟩
        rcases evicted_or_found_or_ahead h s with evicted | ⟨a, found⟩ | empty | ahead
        · exact absurd evicted gone
        · rw [missing] at found
          cases found
        · rw [lastSequence_nil empty] at beyond next
          omega
        · omega
      · exact absurd refused (planPresent_ne_evicted _ _ _ _ _ _)
  · rintro ⟨rfl, gone | negative⟩
    · exact plan_of_evicted h gone part
    · by_cases empty : w.segments = []
      · have missing : w.find? n = none := by
          simp only [find?, segmentsFrom, place?, first?, empty, List.head?_nil]
        simp only [plan, lastSequence_nil empty, isEvicted_nil empty, missing, Bool.false_eq_true,
          if_false]
        rw [if_neg (by omega), if_neg (by omega)]
      · exact plan_of_evicted h (isEvicted_of_neg empty negative) part

/-! ### Requests that are served -/

theorem find?_of_serve {s : Int} {part : Option Int}
    (served : (PlaylistRequest.mk (some s) part).plan w limit = .serve) :
    ∃ a, w.find? s = some a ∧ planPresent a s w.lastSequence part limit = .serve := by
  unfold plan at served
  simp only at served
  split_ifs at served with beyond gone next
  · unfold planNext at served
    split at served
    · cases served
    · split_ifs at served
  · cases found : w.find? s with
    | none =>
        rw [found] at served
        cases served
    | some a =>
        rw [found] at served
        exact ⟨a, rfl, served⟩

/-- A part that is there stays there, and the limit counts from parts at least as new. A segment that
is behind the live edge never gets there again. -/
theorem planPresent_serve_mono {a b : Segment} {s last newest : Int} {part : Option Int}
    (grows : a.Grows b) (inside : s ≤ last) (forward : last ≤ newest)
    (served : planPresent a s last part limit = .serve) :
    planPresent b s newest part limit = .serve := by
  have more := grows.partCount
  cases part with
  | none =>
      simp only [planPresent] at served ⊢
      split_ifs at served with complete
      rw [if_pos (grows.sealed complete)]
  | some part =>
      simp only [planPresent] at served ⊢
      split_ifs at served with beyond there
      rw [if_neg, if_pos (by omega)]
      intro refused
      obtain ⟨edge, refused⟩ := (Bool.and_eq_true _ _).mp refused
      have edge := of_decide_eq_true edge
      have newer : (a.partCount : Int) - 1 ≤ b.partCount - 1 := by omega
      have before := limit.refuses_mono newer refused
      exact beyond ((Bool.and_eq_true _ _).mpr ⟨decide_eq_true (by omega), before⟩)

/-- What one window serves a later one serves as well, or the segment named has left it. -/
theorem plan_serve_mono {request : PlaylistRequest} (hw : Consecutive w.segments)
    (hv : Consecutive v.segments) (precedes : w.Precedes v)
    (served : request.plan w limit = .serve) :
    request.plan v limit = .serve ∧ (∀ n ∈ request.sequence, v.isEvicted n = false) ∨
      ∃ n ∈ request.sequence, v.isEvicted n = true ∧
        request.plan v limit = .refuse (.evicted (.whole n)) := by
  obtain ⟨sequence, part⟩ := request
  cases sequence with
  | none =>
      unfold plan at served ⊢
      simp only at served ⊢
      split_ifs at served with unnamed empty
      have filled := precedes.nonempty hw fun same => empty (by rw [same]; rfl)
      refine .inl ⟨?_, nofun⟩
      rw [if_neg unnamed, if_neg fun same => filled (List.isEmpty_iff.mp same)]
  | some s =>
      obtain ⟨a, found, served⟩ := find?_of_serve served
      rcases precedes.kept s a found with gone | ⟨b, there, grows⟩
      · exact .inr ⟨s, rfl, gone, plan_of_evicted hv gone part⟩
      · obtain ⟨before, rfl⟩ := (find?_eq_some_iff hw s a).mp found
        obtain ⟨member, named⟩ := (find?_eq_some_iff hv _ b).mp there
        refine .inl ⟨?_, ?_⟩
        · rw [plan_of_find? hv there]
          exact planPresent_serve_mono grows (le_lastSequence hw before) precedes.lastSequence served
        · rintro _ ⟨⟩
          rw [← named]
          exact not_evicted_of_mem hv member

end PlaylistRequest

namespace LiveBuffer

variable {τ : Type} {b : LiveBuffer τ}

theorem create_wellFormed {stream : String} {size : Float}
    (created : LiveBuffer.create stream size = .ok b) :
    1 ≤ b.capacity ∧ b.window.WellFormed b.capacity := by
  unfold create at created
  cases named : capacity? size with
  | error fault =>
      rw [named] at created
      cases created
  | ok capacity =>
      rw [named] at created
      cases created
      exact ⟨((capacity?_eq_ok_iff size capacity).mp named).1, .empty capacity⟩

theorem step_precedes (positive : 1 ≤ b.capacity) (h : b.window.WellFormed b.capacity)
    (call : Int × ProducerCall) :
    (b.step call).capacity = b.capacity ∧ (b.step call).window.WellFormed b.capacity ∧
      b.window.Precedes (b.step call).window := by
  unfold step
  cases done : b.perform call.1 call.2 with
  | error fault => exact ⟨rfl, h, .refl _⟩
  | ok result =>
      obtain ⟨next, effects⟩ := result
      obtain ⟨w, log, made, rfl, -⟩ := perform_ok done
      obtain ⟨wellFormed, dropped, advances⟩ := Window.perform_advances positive h made
      exact ⟨rfl, wellFormed, advances.precedes h.consecutive⟩

theorem run_precedes (positive : 1 ≤ b.capacity) (h : b.window.WellFormed b.capacity)
    (calls : List (Int × ProducerCall)) :
    (b.run calls).capacity = b.capacity ∧ (b.run calls).window.WellFormed b.capacity ∧
      b.window.Precedes (b.run calls).window := by
  induction calls generalizing b with
  | nil => exact ⟨rfl, h, .refl _⟩
  | cons call calls ih =>
      obtain ⟨capacity, wellFormed, precedes⟩ := step_precedes positive h call
      rw [← capacity] at positive wellFormed
      obtain ⟨same, after, later⟩ := ih positive wellFormed
      rw [capacity] at same after
      exact ⟨same, after, precedes.trans later⟩

/-- A playlist request that can be served stays so. What a window of a buffer serves at once every
later one serves at once for as long as the segment named is in it, and then refuses as lost; it is
never parked or out of range again. What a window refuses as lost every later one refuses so. -/
theorem servable_stays_servable {stream : String} {size : Float}
    (created : LiveBuffer.create stream size = .ok b) (calls more : List (Int × ProducerCall))
    (request : PlaylistRequest) (limit : PartLimit) :
    let w := (b.run calls).window
    let v := (b.run (calls ++ more)).window
    (request.plan w limit = .serve →
      request.plan v limit = .serve ∧ (∀ n ∈ request.sequence, v.isEvicted n = false) ∨
        ∃ n ∈ request.sequence, v.isEvicted n = true ∧
          request.plan v limit = .refuse (.evicted (.whole n))) ∧
    ∀ n, request.plan w limit = .refuse (.evicted (.whole n)) →
      request.plan v limit = .refuse (.evicted (.whole n)) := by
  intro w v
  obtain ⟨positive, fresh⟩ := create_wellFormed created
  obtain ⟨capacity, before, -⟩ := run_precedes positive fresh calls
  rw [← capacity] at positive before
  obtain ⟨-, after, precedes⟩ := run_precedes positive before more
  rw [← run_append] at after precedes
  refine ⟨PlaylistRequest.plan_serve_mono before.consecutive after.consecutive precedes, ?_⟩
  intro n refused
  obtain ⟨sequence, part⟩ := request
  cases sequence with
  | none =>
      unfold PlaylistRequest.plan at refused
      simp only at refused
      split_ifs at refused
      cases refused
  | some s =>
      obtain ⟨rfl, lost⟩ := (PlaylistRequest.plan_eq_evicted_iff before.consecutive ..).mp refused
      exact (PlaylistRequest.plan_eq_evicted_iff after.consecutive ..).mpr
        ⟨rfl, lost.imp_left (precedes.evicted n)⟩

/-- A part that is served at once is lost when the next segment takes the place of its own. -/
theorem servable_stays_servable_of_one :
    let b : LiveBuffer Unit := ⟨"live", 1, .empty, .start "live"⟩
    let calls := [(0, ProducerCall.put ⟨.whole 0, [], none, false⟩),
      (1, .append (.whole 0) ⟨1.0, true, [7]⟩ false)]
    let request : PlaylistRequest := ⟨some 0, some 0⟩
    LiveBuffer.create "live" 1.0 = .ok b ∧
    request.plan (b.run calls).window (.count 3) = .serve ∧
    request.plan (b.run (calls ++ [(2, .append (.whole 0) ⟨1.0, true, [8]⟩ false)])).window
      (.count 3) = .serve ∧
    request.plan (b.run (calls ++ [(2, .put ⟨.whole 1, [], none, false⟩)])).window (.count 3) =
      .refuse (.evicted (.whole 0)) := by
  intro b calls request
  have created : LiveBuffer.create "live" 1.0 = .ok b := by rfl
  have served : request.plan (b.run calls).window (.count 3) = .serve := by rfl
  have stays := fun more => (servable_stays_servable created calls more request (.count 3)).1 served
  refine ⟨created, served, ?_, ?_⟩
  · rcases stays [(2, .append (.whole 0) ⟨1.0, true, [8]⟩ false)] with ⟨again, -⟩ | ⟨n, ⟨⟩, gone, -⟩
    · exact again
    · cases gone
  · rcases stays [(2, .put ⟨.whole 1, [], none, false⟩)] with ⟨-, inside⟩ | ⟨n, ⟨⟩, -, refused⟩
    · cases inside 0 rfl
    · exact refused

end LiveBuffer

end LiveHls
