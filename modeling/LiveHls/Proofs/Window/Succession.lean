import LiveHls.Proofs.Window.Calls
/-! What the windows of one buffer have in common over time. A call drops segments at the front,
lets the others grow and adds at the end; sequences never come back. -/
namespace LiveHls.Window

variable {w v : Window}

/-- A call has led from one window to another: the segments before, grown, together with new
ones behind them, are those that were dropped and those that are left. -/
structure Advances (w : Window) (dropped : List Segment) (v : Window) : Prop where
  consecutive : Consecutive (dropped ++ v.segments)
  nonempty : v.segments ≠ []
  kept : ∀ a ∈ w.segments, ∃ b ∈ dropped ++ v.segments, a.Grows b
  origin : ∀ b ∈ dropped ++ v.segments,
    (∃ a ∈ w.segments, a.Grows b) ∨ w.lastSequence < b.sequence

theorem started_origin (new : Segment)
    (next : ∀ last, w.segments.getLast? = some last → new.sequence = last.sequence + 1) :
    ∀ b ∈ Segment.started w.segments new,
      (∃ a ∈ w.segments, a.Grows b) ∨ w.lastSequence < b.sequence := by
  intro b member
  rcases List.eq_nil_or_concat' w.segments with segments | ⟨before, last, segments⟩
  · rw [lastSequence_nil segments]
    exact .inr (by omega)
  · have follows := next last (by rw [segments, List.getLast?_concat])
    rw [segments, Segment.started_concat] at member
    rw [segments, lastSequence_concat segments]
    rcases List.mem_append.mp member with old | added
    · rcases List.mem_append.mp old with earlier | same
      · exact .inl ⟨b, by simp [earlier], .refl b⟩
      · rw [List.mem_singleton.mp same]
        exact .inl ⟨last, by simp, last.closeIfOpen_grows⟩
    · rw [List.mem_singleton.mp added]
      exact .inr (by omega)

theorem replace_advances {before after : List Segment} {a b : Segment}
    (h : Consecutive w.segments) (segments : w.segments = before ++ a :: after)
    (grows : a.Grows b) (result : v.segments = before ++ b :: after) : Advances w [] v := by
  rw [segments] at h
  refine ⟨?_, by simp [result], ?_, ?_⟩
  · rw [List.nil_append, result]
    exact h.replace grows
  · intro c member
    rw [segments] at member
    rw [List.nil_append, result]
    rcases List.mem_append.mp member with earlier | rest
    · exact ⟨c, List.mem_append_left _ earlier, .refl c⟩
    · rcases List.mem_cons.mp rest with rfl | later
      · exact ⟨b, by simp, grows⟩
      · exact ⟨c, by simp [later], .refl c⟩
  · intro c member
    rw [List.nil_append, result] at member
    rw [segments]
    rcases List.mem_append.mp member with earlier | rest
    · exact .inl ⟨c, List.mem_append_left _ earlier, .refl c⟩
    · rcases List.mem_cons.mp rest with rfl | later
      · exact .inl ⟨a, by simp, grows⟩
      · exact .inl ⟨c, by simp [later], .refl c⟩

theorem revise_advances {stream : String} {capacity : Nat} {number : Numeral}
    {f : Segment → Except Fault Segment} (h : w.WellFormed capacity)
    (grows : ∀ a b, f a = .ok b → a.Grows b) (ok : w.revise stream number f = .ok v) :
    v.WellFormed capacity ∧ Advances w [] v := by
  obtain ⟨before, a, b, after, segments, -, made, rfl⟩ := revise_eq_ok h.consecutive ok
  have advances : Advances w [] { w with segments := before ++ b :: after, version := w.version + 1 } :=
    replace_advances h.consecutive segments (grows a b made) rfl
  refine ⟨⟨advances.consecutive, ?_⟩, advances⟩
  have bounded := h.bounded
  simp only [segments, List.length_append, List.length_cons] at bounded ⊢
  exact bounded

theorem put_advances {capacity : Nat} {new : NewSegment} {now : Int} (positive : 1 ≤ capacity)
    (h : w.WellFormed capacity) (ok : w.put capacity new now = .ok v) :
    v.WellFormed capacity ∧ ∃ dropped, Advances w dropped v := by
  obtain ⟨sequence, -, next, rfl⟩ := put_eq_ok ok
  have kept : ∀ a ∈ w.segments, ∃ b ∈ Segment.started w.segments (.start sequence new now),
      a.Grows b := fun a member => Segment.started_kept member (.start sequence new now)
  have origin := started_origin (.start sequence new now) next
  have consecutive := h.consecutive.started (.start sequence new now) next
  have length := Segment.started_length w.segments (.start sequence new now)
  generalize Segment.started w.segments (.start sequence new now) = segments at *
  have bounded : (segments.drop (segments.length - capacity)).length ≤ capacity := by
    rw [List.length_drop]
    omega
  have nonempty : segments.drop (segments.length - capacity) ≠ [] := by
    rw [ne_eq, List.drop_eq_nil_iff]
    omega
  rw [← List.take_append_drop (segments.length - capacity) segments] at consecutive kept origin
  exact ⟨⟨consecutive.right, bounded⟩, _, ⟨consecutive, nonempty, kept, origin⟩⟩

/-- A put drops at most one segment, the first of a full window. Then the next sequence comes
first. -/
theorem put_drops_first {capacity : Nat} {new : NewSegment} {now : Int} {a : Segment}
    (h : w.WellFormed capacity) (ok : w.put capacity new now = .ok v) (member : a ∈ w.segments)
    (evicted : v.isEvicted a.sequence = true) :
    ∃ rest, w.segments = a :: rest ∧ w.segments.length = capacity ∧
      v.segments.map (·.partCount) = rest.map (·.partCount) ++ [0] ∧
      v.isEvicted (a.sequence + 1) = false ∧ v.segmentsFrom (a.sequence + 1) = v.segments := by
  obtain ⟨sequence, -, next, made⟩ := put_eq_ok ok
  have consecutive := h.consecutive.started (.start sequence new now) next
  have bounded := h.bounded
  have kept : v.segments = (Segment.started w.segments (.start sequence new now)).drop
      ((Segment.started w.segments (.start sequence new now)).length - capacity) := by
    rw [made]
    rfl
  have left {b : Segment} (grows : a.Grows b) : b ∉ v.segments := by
    intro stays
    have inside := not_evicted_of_mem (w := v) (kept ▸ consecutive.drop _) stays
    rw [grows.sequence, evicted] at inside
    cases inside
  obtain ⟨first, rest, segments⟩ := List.exists_cons_of_ne_nil (List.ne_nil_of_mem member)
  rw [segments] at kept consecutive member bounded
  rcases Segment.drop_started first bounded (.start sequence new now) with all | ⟨full, behind⟩
  · obtain ⟨b, stays, grows⟩ := Segment.started_kept member (.start sequence new now)
    exact absurd (kept.trans all ▸ stays) (left grows)
  · rw [behind] at kept
    rcases List.mem_cons.mp member with rfl | later
    · refine ⟨rest, segments, segments ▸ full, ?_, ?_⟩
      · rw [kept]
        exact Segment.started_partCounts rest _
      · obtain ⟨b, grows, cons⟩ := Segment.started_cons a rest (.start sequence new now)
        obtain ⟨oldest, others, started⟩ := List.exists_cons_of_ne_nil
          (l := Segment.started rest (.start sequence new now))
          (List.ne_nil_of_length_pos (by rw [Segment.started_length]; omega))
        rw [cons, started] at consecutive
        have follows : (oldest.sequence : Int) = a.sequence + 1 := by
          rw [consecutive.rel.next, grows.sequence]
          omega
        rw [← follows]
        exact segmentsFrom_first (kept.trans started)
    · obtain ⟨b, stays, grows⟩ := Segment.started_kept later (.start sequence new now)
      exact absurd (kept ▸ stays) (left grows)

/-- Only a put drops segments. -/
theorem perform_advances_or_put {stream : String} {capacity : Nat} {now : Int}
    {call : ProducerCall} (h : w.WellFormed capacity)
    (ok : w.perform stream capacity now call = .ok v) :
    v.WellFormed capacity ∧ Advances w [] v ∨
      ∃ new, call = .put new ∧ w.put capacity new now = .ok v := by
  cases call with
  | put new => exact .inr ⟨new, rfl, ok⟩
  | append number part discontinuity =>
      exact .inl (revise_advances h (fun a b made => (Segment.append_grows made).2) ok)
  | close number duration =>
      rw [perform, close_eq_revise] at ok
      exact .inl (revise_advances h (fun a b made => (Segment.close_grows made).2) ok)

theorem perform_advances {stream : String} {capacity : Nat} {now : Int} {call : ProducerCall}
    (positive : 1 ≤ capacity) (h : w.WellFormed capacity)
    (ok : w.perform stream capacity now call = .ok v) :
    v.WellFormed capacity ∧ ∃ dropped, Advances w dropped v := by
  rcases perform_advances_or_put h ok with ⟨wellFormed, advances⟩ | ⟨new, rfl, ok⟩
  · exact ⟨wellFormed, [], advances⟩
  · exact put_advances positive h ok

/-- One window is an earlier window of the buffer that another one belongs to. -/
structure Precedes (w v : Window) : Prop where
  lastSequence : w.lastSequence ≤ v.lastSequence
  evicted : ∀ s, w.isEvicted s = true → v.isEvicted s = true
  kept : ∀ s a, w.find? s = some a →
    v.isEvicted s = true ∨ ∃ b, v.find? s = some b ∧ a.Grows b

theorem Precedes.refl (w : Window) : w.Precedes w :=
  ⟨Int.le_refl _, fun _ h => h, fun _ a found => .inr ⟨a, found, .refl a⟩⟩

theorem Precedes.trans {u : Window} (huw : u.Precedes w) (hwv : w.Precedes v) : u.Precedes v := by
  refine ⟨Int.le_trans huw.lastSequence hwv.lastSequence, fun s h => hwv.evicted s (huw.evicted s h),
    fun s a found => ?_⟩
  rcases huw.kept s a found with gone | ⟨b, found, grows⟩
  · exact .inl (hwv.evicted s gone)
  · rcases hwv.kept s b found with gone | ⟨c, found, grows'⟩
    · exact .inl gone
    · exact .inr ⟨c, found, grows.trans grows'⟩

theorem Precedes.first_le (h : w.Precedes v) {first oldest : Segment} {rest others : List Segment}
    (front : w.segments = first :: rest) (later : v.segments = oldest :: others) :
    first.sequence ≤ oldest.sequence := by
  have before : w.isEvicted ((first.sequence : Int) - 1) = true := by
    rw [isEvicted_of_head front]
    exact decide_eq_true (by omega)
  have gone := h.evicted _ before
  rw [isEvicted_of_head later] at gone
  have less := of_decide_eq_true gone
  omega

/-- The segments that a call drops lie before the window that it leaves. -/
theorem isEvicted_of_dropped {dropped : List Segment} (h : Consecutive (dropped ++ v.segments))
    (nonempty : v.segments ≠ []) {a : Segment} (member : a ∈ dropped) :
    v.isEvicted a.sequence = true := by
  obtain ⟨first, rest, segments⟩ := List.exists_cons_of_ne_nil nonempty
  rw [segments] at h
  have less := (List.pairwise_append.mp h.sorted).2.2 a member first List.mem_cons_self
  rw [isEvicted_of_head segments]
  exact decide_eq_true (by omega)

theorem Advances.lastSequence_le {dropped : List Segment} (advances : Advances w dropped v) :
    w.lastSequence ≤ v.lastSequence := by
  have hv : Consecutive v.segments := advances.consecutive.right
  obtain ⟨first, rest, segments⟩ := List.exists_cons_of_ne_nil advances.nonempty
  have newest := le_lastSequence hv (segments ▸ List.mem_cons_self)
  rcases List.eq_nil_or_concat' w.segments with empty | ⟨before, last, concat⟩
  · rw [lastSequence_nil empty]
    omega
  · obtain ⟨b, member, grows⟩ := advances.kept last (by rw [concat]; simp)
    rw [lastSequence_concat concat, ← grows.sequence]
    rcases List.mem_append.mp member with gone | stays
    · have before := isEvicted_of_dropped advances.consecutive advances.nonempty gone
      rw [isEvicted_of_head segments] at before
      have less := of_decide_eq_true before
      omega
    · exact le_lastSequence hv stays

theorem Advances.evicted {dropped : List Segment} (h : Consecutive w.segments)
    (advances : Advances w dropped v) {s : Int} (before : w.isEvicted s = true) :
    v.isEvicted s = true := by
  obtain ⟨first, rest, segments⟩ := List.exists_cons_of_ne_nil advances.nonempty
  cases old : w.segments with
  | nil =>
      rw [isEvicted_nil old] at before
      cases before
  | cons oldest older =>
      rw [isEvicted_of_head old] at before
      have less := of_decide_eq_true before
      rw [isEvicted_of_head segments]
      refine decide_eq_true ?_
      -- the first segment was there before, or is newer than all that were
      rcases advances.origin first (by rw [segments]; simp) with ⟨a, member, grows⟩ | new
      · have least := first_le (old ▸ h) (old ▸ member)
        rw [grows.sequence]
        omega
      · have newest := le_lastSequence h (old ▸ List.mem_cons_self)
        omega

theorem Advances.precedes {dropped : List Segment} (h : Consecutive w.segments)
    (advances : Advances w dropped v) : w.Precedes v := by
  refine ⟨advances.lastSequence_le, fun s => advances.evicted h, ?_⟩
  intro s a found
  obtain ⟨member, rfl⟩ := (find?_eq_some_iff h s a).mp found
  obtain ⟨b, member, grows⟩ := advances.kept a member
  rw [← grows.sequence]
  rcases List.mem_append.mp member with gone | stays
  · exact .inl (isEvicted_of_dropped advances.consecutive advances.nonempty gone)
  · exact .inr ⟨b, (find?_eq_some_iff advances.consecutive.right _ b).mpr ⟨stays, rfl⟩, grows⟩

end LiveHls.Window
