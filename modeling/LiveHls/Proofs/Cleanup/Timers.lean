import Mathlib
import LiveHls.Origin.Cleanup
/-! The timers of the cleanup. Each lies ahead of the clock by one period at most, so that none of its
firings is missed; and none is ever disarmed but the one that is remembered. -/
namespace LiveHls.Cleanup

variable {c : Cleanup} {o : Origin} {now later : Int} {timer : Timer} {timers : List Timer}
  {period : Nat}

/-! ### Timers that are due -/

theorem due?_eq_some (first : due? now timers = some timer) :
    timer ∈ timers ∧ timer.due ≤ now := by
  induction timers generalizing timer with
  | nil => cases first
  | cons t rest ih =>
      rw [due?] at first
      split at first
      · rename_i other found
        obtain ⟨member, before⟩ := ih found
        split at first <;> cases first
        · rename_i sooner
          exact ⟨List.mem_cons_self, Int.le_trans sooner before⟩
        · exact ⟨List.mem_cons_of_mem t member, before⟩
      · split at first <;> cases first
        rename_i before
        exact ⟨List.mem_cons_self, before⟩

theorem due?_eq_none (early : due? now timers = none) : ∀ t ∈ timers, now < t.due := by
  induction timers with
  | nil => exact List.forall_mem_nil _
  | cons t rest ih =>
      rw [due?] at early
      split at early
      · split at early <;> cases early
      · rename_i found
        split at early
        · cases early
        · rename_i ahead
          exact List.forall_mem_cons.mpr ⟨Int.not_le.mp ahead, ih found⟩

theorem rearm_ids (period : Nat) (timer : Timer) (timers : List Timer) :
    (rearm period timer timers).map (·.id) = timers.map (·.id) := by
  rw [rearm, List.map_map]
  refine List.map_congr_left fun t _ => ?_
  show (if t.id = timer.id then { t with due := t.due + period } else t).id = t.id
  split <;> rfl

theorem rearm_cons (period : Nat) (timer t : Timer) (rest : List Timer) :
    rearm period timer (t :: rest) =
      (if t.id = timer.id then { t with due := t.due + period } else t) ::
        rearm period timer rest := rfl

theorem mem_rearm (once : (timers.map (·.id)).Nodup) (armed : timer ∈ timers) {t : Timer}
    (member : t ∈ rearm period timer timers) : t ∈ timers ∨ t.due = timer.due + period := by
  obtain ⟨old, there, same⟩ := List.mem_map.mp member
  split at same
  · rename_i own
    rw [← same, List.inj_on_of_nodup_map once there armed own]
    exact .inr rfl
  · exact .inl (same ▸ there)

theorem length_filter_ne {id : Nat} (once : (timers.map (·.id)).Nodup)
    (member : id ∈ timers.map (·.id)) :
    (timers.filter (·.id ≠ id)).length + 1 = timers.length := by
  have one : timers.countP (·.id = id) = 1 := by
    rw [← List.count_eq_one_of_mem once member, List.count, List.countP_map]
    exact List.countP_congr fun t _ => by simp
  rw [← List.countP_eq_length_filter, ← one, Nat.add_comm]
  simpa using (List.length_eq_countP_add_countP (fun t : Timer => decide (t.id = id))).symm

/-! ### Firings -/

/-- How often a timer fires until a time. -/
def firings (period : Nat) (now : Int) (timer : Timer) : Nat :=
  if timer.due ≤ now then (now - timer.due).toNat / period + 1 else 0

theorem firings_next (ticks : 0 < period) (due : timer.due ≤ now) :
    firings period now { timer with due := timer.due + period } + 1 = firings period now timer := by
  simp only [firings, if_pos due]
  split
  · rename_i again
    have split : (now - timer.due).toNat = (now - (timer.due + period)).toNat + period := by omega
    rw [split, Nat.add_div_right _ ticks]
  · rename_i ahead
    have short : (now - timer.due).toNat < period := by omega
    rw [Nat.div_eq_of_lt short]

theorem firings_le (ahead : now < timer.due) :
    firings period later timer ≤ (later - now).toNat / period + 1 := by
  unfold firings
  split
  · exact Nat.add_le_add_right (Nat.div_le_div_right (by omega)) 1
  · exact Nat.zero_le _

theorem rearm_of_absent (absent : timer.id ∉ timers.map (·.id)) :
    rearm period timer timers = timers := by
  refine (List.map_congr_left fun t member => if_neg fun same => ?_).trans (List.map_id timers)
  exact absent (same ▸ List.mem_map_of_mem member)

theorem sum_firings_rearm (ticks : 0 < period) (once : (timers.map (·.id)).Nodup)
    (member : timer ∈ timers) (due : timer.due ≤ now) :
    ((rearm period timer timers).map (firings period now)).sum + 1 =
      (timers.map (firings period now)).sum := by
  induction timers with
  | nil => cases member
  | cons t rest ih =>
      obtain ⟨fresh, once⟩ := List.nodup_cons.mp once
      rw [rearm_cons, List.map_cons, List.map_cons, List.sum_cons, List.sum_cons]
      cases List.mem_cons.mp member with
      | inl same =>
          subst same
          rw [if_pos rfl, rearm_of_absent fresh, ← firings_next ticks due]
          omega
      | inr later =>
          have other : t.id ≠ timer.id := fun same =>
            fresh (List.mem_map.mpr ⟨timer, later, same.symm⟩)
          rw [if_neg other, ← ih once later]
          omega

/-! ### What an advance of the clock does -/

theorem period_pos (c : Cleanup) : 0 < c.period :=
  Nat.lt_of_lt_of_le Nat.one_pos (Nat.le_max_left _ _)

/-- A cleanup run says what it has removed, or that there was nothing to remove. -/
theorem removeIdle_log_ne_nil (config : CleanupConfig) (o : Origin) (now : Int) :
    (removeIdle config o now).2.2 ≠ [] := by
  have said : ∀ names o, (removeFrom now (now - config.idleTimeout) names o).2.1 ≠ [] →
      (removeFrom now (now - config.idleTimeout) names o).2.2 ≠ [] := by
    intro names o
    fun_induction removeFrom now (now - config.idleTimeout) names o <;> simp_all
  simp only [removeIdle]
  split
  · exact List.append_ne_nil_of_right_ne_nil _ (List.cons_ne_nil _ _)
  · rename_i filled
    exact said _ _ fun empty => filled (List.isEmpty_iff.mpr empty)

/-- What every firing keeps is kept until the last. -/
theorem fireWithin_keeps (kept : Cleanup → Prop)
    (fires : ∀ c : Cleanup, ∀ timer ∈ c.armed, timer.due ≤ now → kept c →
      kept { c with armed := rearm c.period timer c.armed })
    (n : Nat) (o : Origin) (start : kept c) : kept (fireWithin n c o now).1 := by
  induction n generalizing c o with
  | zero => exact start
  | succ n ih =>
      cases found : due? now c.armed with
      | none => simpa only [fireWithin, found] using start
      | some timer =>
          simp only [fireWithin, found]
          obtain ⟨armed, due⟩ := due?_eq_some found
          exact ih _ (fires c timer armed due start)

theorem fireWithin_within (n : Nat) (once : (c.armed.map (·.id)).Nodup)
    (within : ∀ t ∈ c.armed, t.due ≤ now + c.period) :
    ∀ t ∈ (fireWithin n c o now).1.armed, t.due ≤ now + (fireWithin n c o now).1.period := by
  refine (fireWithin_keeps
    (fun d => (d.armed.map (·.id)).Nodup ∧ ∀ t ∈ d.armed, t.due ≤ now + d.period)
    (fun d timer armed due h => ?_) n o ⟨once, within⟩).2
  obtain ⟨once, within⟩ := h
  refine ⟨(rearm_ids ..).symm ▸ once, fun t member => ?_⟩
  cases mem_rearm once armed member with
  | inl old => exact within t old
  | inr next => exact next ▸ Int.add_le_add_right due _

/-- With a step for every firing, no timer is left that is due. -/
theorem fireWithin_ahead (n : Nat) (once : (c.armed.map (·.id)).Nodup)
    (enough : (c.armed.map (firings c.period now)).sum ≤ n) :
    ∀ t ∈ (fireWithin n c o now).1.armed, now < t.due := by
  induction n generalizing c o with
  | zero =>
      intro t (member : t ∈ c.armed)
      by_contra due
      have fires : 0 < firings c.period now t := by
        rw [firings, if_pos (Int.not_lt.mp due)]
        exact Nat.succ_pos _
      have := List.single_le_sum (fun _ _ => Nat.zero_le _) _
        (List.mem_map_of_mem (f := firings c.period now) member)
      omega
  | succ n ih =>
      cases found : due? now c.armed with
      | none => simpa only [fireWithin, found] using due?_eq_none found
      | some timer =>
          simp only [fireWithin, found]
          obtain ⟨armed, due⟩ := due?_eq_some found
          refine ih (c := { c with armed := rearm c.period timer c.armed })
            ((rearm_ids ..).symm ▸ once) (Nat.le_of_succ_le_succ ?_)
          exact (sum_firings_rearm c.period_pos once armed due).trans_le enough

theorem sum_firings_le (ahead : ∀ t ∈ c.armed, now < t.due) :
    (c.armed.map (firings c.period later)).sum ≤
      c.armed.length * ((later - now).toNat / c.period + 1) := by
  have each : ∀ n ∈ c.armed.map (firings c.period later),
      n ≤ (later - now).toNat / c.period + 1 := by
    intro n member
    obtain ⟨t, there, rfl⟩ := List.mem_map.mp member
    exact firings_le (ahead t there)
  simpa only [List.length_map, smul_eq_mul] using List.sum_le_card_nsmul _ _ each

/-- An advance moves nothing but the times of the timers. -/
theorem advance_frame (c : Cleanup) (o : Origin) (now later : Int) :
    (c.advance o now later).1.config = c.config ∧
      (c.advance o now later).1.remembered = c.remembered ∧
      (c.advance o now later).1.nextId = c.nextId ∧
      (c.advance o now later).1.armed.map (·.id) = c.armed.map (·.id) := by
  refine fireWithin_keeps
    (fun d => d.config = c.config ∧ d.remembered = c.remembered ∧ d.nextId = c.nextId ∧
      d.armed.map (·.id) = c.armed.map (·.id))
    (fun d timer _ _ h => ?_) _ o ⟨rfl, rfl, rfl, rfl⟩
  obtain ⟨config, remembered, nextId, ids⟩ := h
  exact ⟨config, remembered, nextId, (rearm_ids ..).trans ids⟩

theorem advance_of_unarmed (unarmed : c.armed = []) : c.advance o now later = (c, o, []) := by
  rw [advance, unarmed, List.length_nil, Nat.zero_mul, fireWithin]

theorem advance_of_due {timer : Timer} (armed : timer ∈ c.armed) (due : timer.due ≤ later) :
    (c.advance o now later).2.2 ≠ [] := by
  obtain ⟨n, more⟩ : ∃ n, c.armed.length * ((later - now).toNat / c.period + 1) = n + 1 :=
    Nat.exists_eq_succ_of_ne_zero
      (Nat.mul_pos (List.length_pos_of_mem armed) (Nat.succ_pos _)).ne'
  rw [advance, more]
  cases found : due? later c.armed with
  | none => exact absurd due (Int.not_le.mpr (due?_eq_none found timer armed))
  | some first =>
      simp only [fireWithin, found]
      exact List.append_ne_nil_of_left_ne_nil (removeIdle_log_ne_nil c.config o first.due) _

/-! ### Ticking timers -/

/-- Every armed timer will fire, within one period, and can be told from the others. -/
structure Ticking (c : Cleanup) (now : Int) : Prop where
  fresh : ∀ t ∈ c.armed, t.id < c.nextId
  once : (c.armed.map (·.id)).Nodup
  ahead : ∀ t ∈ c.armed, now < t.due
  within : ∀ t ∈ c.armed, t.due ≤ now + c.period
  held : ∀ id, c.remembered = some id → id ∈ c.armed.map (·.id)

theorem create_ticking (config : CleanupConfig) (now : Int) : (create config).Ticking now where
  fresh := List.forall_mem_nil _
  once := List.nodup_nil
  ahead := List.forall_mem_nil _
  within := List.forall_mem_nil _
  held _ listed := nomatch listed

theorem start_of_disabled (off : c.config.enabled = false) : (c.start now).1 = c := by
  simp only [start, off, Bool.false_eq_true, if_false]

theorem start_of_enabled (on : c.config.enabled = true) :
    (c.start now).1 =
      { c with
        armed := c.armed ++ [⟨c.nextId, now + c.period⟩]
        remembered := some c.nextId
        nextId := c.nextId + 1 } := by
  simp only [start, on, if_true]

theorem start_config (c : Cleanup) (now : Int) : (c.start now).1.config = c.config := by
  unfold start
  split <;> rfl

theorem start_armed (c : Cleanup) (now : Int) :
    (c.start now).1.armed.length = c.armed.length + c.config.enabled.toNat := by
  cases on : c.config.enabled with
  | false => rw [start_of_disabled on, Bool.toNat_false, Nat.add_zero]
  | true => rw [start_of_enabled on, List.length_append, List.length_singleton, Bool.toNat_true]

theorem start_remembered (c : Cleanup) (now : Int) :
    (c.start now).1.remembered.isSome = (c.config.enabled || c.remembered.isSome) := by
  cases on : c.config.enabled with
  | false => rw [start_of_disabled on, Bool.false_or]
  | true => rw [start_of_enabled on, Option.isSome_some, Bool.true_or]

theorem Ticking.start (ticking : c.Ticking now) : (c.start now).1.Ticking now := by
  cases on : c.config.enabled with
  | false => exact (start_of_disabled on).symm ▸ ticking
  | true =>
      rw [start_of_enabled on]
      have new : c.nextId ∉ c.armed.map (·.id) := by
        intro member
        obtain ⟨t, there, same⟩ := List.mem_map.mp member
        exact absurd (ticking.fresh t there) (by omega)
      have ticks : (0 : Int) < c.period := Int.natCast_pos.mpr c.period_pos
      exact
        { fresh := List.forall_mem_append.mpr
            ⟨fun t there => Nat.lt_succ_of_lt (ticking.fresh t there),
              List.forall_mem_singleton.mpr (Nat.lt_succ_self _)⟩
          once := by
            rw [List.map_append]
            exact List.nodup_append'.mpr ⟨ticking.once, List.nodup_singleton _,
              List.disjoint_singleton.mpr new⟩
          ahead := List.forall_mem_append.mpr ⟨ticking.ahead,
            List.forall_mem_singleton.mpr (Int.lt_add_of_pos_right _ ticks)⟩
          within := List.forall_mem_append.mpr ⟨ticking.within,
            List.forall_mem_singleton.mpr (Int.le_refl _)⟩
          held := fun id same => by
            cases same
            simp }

theorem stop_of_some {id : Nat} (held : c.remembered = some id) :
    c.stop.1 = { c with armed := c.armed.filter (·.id ≠ id), remembered := none } := by
  simp only [stop, held]

theorem stop_of_none (held : c.remembered = none) : c.stop = (c, []) := by
  simp only [stop, held]

theorem stop_config (c : Cleanup) : c.stop.1.config = c.config := by
  unfold stop
  split <;> rfl

theorem stop_remembered (c : Cleanup) : c.stop.1.remembered = none := by
  cases held : c.remembered with
  | none => rw [stop_of_none held, held]
  | some id => rw [stop_of_some held]

theorem Ticking.stop_armed (ticking : c.Ticking now) :
    c.stop.1.armed.length + c.remembered.isSome.toNat = c.armed.length := by
  cases held : c.remembered with
  | none => rw [stop_of_none held, Option.isSome_none, Bool.toNat_false, Nat.add_zero]
  | some id =>
      rw [stop_of_some held, Option.isSome_some, Bool.toNat_true]
      exact length_filter_ne ticking.once (ticking.held id held)

theorem Ticking.stop (ticking : c.Ticking now) : c.stop.1.Ticking now := by
  cases held : c.remembered with
  | none => exact (stop_of_none held).symm ▸ ticking
  | some id =>
      rw [stop_of_some held]
      have kept : ∀ t ∈ c.armed.filter (·.id ≠ id), t ∈ c.armed := fun t => List.mem_of_mem_filter
      exact
        { fresh := fun t there => ticking.fresh t (kept t there)
          once := (List.filter_sublist.map _).nodup ticking.once
          ahead := fun t there => ticking.ahead t (kept t there)
          within := fun t there => ticking.within t (kept t there)
          held := fun _ listed => nomatch listed }

theorem Ticking.advance (ticking : c.Ticking now) (forward : now ≤ later) :
    (c.advance o now later).1.Ticking later := by
  obtain ⟨-, remembered, nextId, ids⟩ := advance_frame c o now later
  have near : ∀ t ∈ c.armed, t.due ≤ later + c.period := fun t there =>
    (ticking.within t there).trans (Int.add_le_add_right forward _)
  exact
    { fresh := by
        intro t there
        have member : t.id ∈ c.armed.map (·.id) := ids ▸ List.mem_map_of_mem there
        obtain ⟨old, before, same⟩ := List.mem_map.mp member
        exact nextId.symm ▸ same ▸ ticking.fresh old before
      once := ids.symm ▸ ticking.once
      ahead := fireWithin_ahead _ ticking.once (sum_firings_le ticking.ahead)
      within := fireWithin_within _ ticking.once near
      held := fun id same => ids.symm ▸ ticking.held id (remembered ▸ same) }

end LiveHls.Cleanup
