import Mathlib
import LiveHls.Proofs.ConfigLoading
import LiveHls.Proofs.Decimal.Notation
import LiveHls.Proofs.Settings.Ranges
/-! Settings that a stream can work with: those of part durations that are neither lost nor overflow.
A configuration is loaded with any positive part duration that fits into a segment. -/
namespace LiveHls.Settings

open Binary64

variable {x partDuration segmentDuration : Float} {p : ℚ} {m : Nat} {e : Int}

/-! ### Usable settings -/

/-- The part target is a positive number, and the target duration and the limit are whole ones. -/
structure Usable (settings : Settings) : Prop where
  partTarget : isFinite settings.partTargetDuration = true ∧ 0.0 < settings.partTargetDuration
  target : ∃ n : Int, integer? settings.targetDuration = some n ∧ 1 ≤ n
  limit : ∃ n : Int, integer? settings.advancePartLimit = some n ∧ 3 ≤ n

theorem derive_target (positive : 0.0 < segmentDuration) (finite : isFinite segmentDuration = true)
    (partDuration : Float) : ∃ n : Int,
      integer? (derive segmentDuration partDuration).targetDuration = some n ∧ 1 ≤ n := by
  obtain ⟨p, reads, above⟩ := exists_reads positive finite
  obtain ⟨n, whole, least⟩ := targetDuration_of_positive reads above
  exact ⟨n, whole, Int.ofNat_le.mpr least⟩

/-- The three ranges of the part duration. -/
theorem partTarget_cases (positive : 0.0 < partDuration) (finite : isFinite partDuration = true) :
    (partDuration < 5e-7 ∧ Reads (partTargetMillis partDuration / 1e3) 0) ∨
    (¬ partDuration < 1.797693134862316e302 ∧
      unpack (partTargetMillis partDuration / 1e3) = .infinity .positive) ∨
    (¬ partDuration < 5e-7 ∧ partDuration < 1.797693134862316e302 ∧
      ∃ millis target, Reads (partTargetMillis partDuration) millis ∧ 1 ≤ millis ∧
        Reads (partTargetMillis partDuration / 1e3) target ∧ 2 ^ (-10 : Int) ≤ target) := by
  obtain ⟨p, reads, above⟩ := exists_reads positive finite
  by_cases low : partDuration < 5e-7
  · obtain ⟨r, micros, less⟩ := micros_of_low reads above low
    exact .inl ⟨low, partTarget_of_low micros less⟩
  · by_cases high : partDuration < 1.797693134862316e302
    · obtain ⟨r, micros, least, most⟩ := micros_of_within reads above low high
      obtain ⟨millis, whole, one, small⟩ := millis_of_within micros least most
      obtain ⟨target, quotient, bound, -⟩ :=
        thousandth_of_within whole one (small.trans (power_le (by decide)))
      exact .inr (.inr ⟨low, high, millis, target, whole, one, quotient, bound⟩)
    · exact .inr (.inl ⟨high, partTarget_of_high (micros_of_high reads above high)⟩)

theorem derive_usable_iff (segment : 0.0 < segmentDuration ∧ isFinite segmentDuration = true)
    (part : 0.0 < partDuration ∧ isFinite partDuration = true) :
    Usable (derive segmentDuration partDuration) ↔
      ¬ partDuration < 5e-7 ∧ partDuration < 1.797693134862316e302 := by
  rcases partTarget_cases part.1 part.2 with ⟨low, zero⟩ | ⟨high, infinite⟩ |
    ⟨low, high, millis, target, whole, one, quotient, bound⟩
  · refine iff_of_false (fun usable => ?_) fun within => within.1 low
    exact absurd (zero.positive_iff.mp usable.partTarget.2) (lt_irrefl 0)
  · refine iff_of_false (fun usable => ?_) fun within => high within.2
    have finite : isFinite (partTargetMillis partDuration / 1e3) = true := usable.partTarget.1
    rw [isFinite, infinite] at finite
    cases finite
  · refine iff_of_true ?_ ⟨low, high⟩
    obtain ⟨n, limit, least⟩ := limitOf_of_within whole one
    exact
      { partTarget :=
          ⟨quotient.isFinite, quotient.positive_iff.mpr ((power_pos _).trans_le bound)⟩
        target := derive_target segment.1 segment.2 partDuration
        limit := ⟨n, limit, Int.ofNat_le.mpr least⟩ }

/-! ### The text of the part target -/

/-- What is at least a thousandth, nearly, does not round to zero. -/
theorem nearest_pos (bound : 2 ^ (-10 : Int) ≤ scaled m e) :
    0 < Decimal.nearest ((quotient m e).1 * 10 ^ 3) (quotient m e).2 := by
  have denominator := denominator_pos m e
  have whole : (quotient m e).2 ≤ (quotient m e).1 * 1024 := by
    rw [← quotient_eq, le_div_iff₀ (Nat.cast_pos.mpr denominator)] at bound
    have scaled : ((quotient m e).2 : ℚ) ≤ (quotient m e).1 * 1024 := by
      norm_num at bound
      linarith
    exact_mod_cast scaled
  exact Nat.div_pos (by omega) (by omega)

theorem fixed_zero (reads : Reads x 0) : Decimal.fixed 3 x = "0.000" := by
  generalize value : (0 : ℚ) = p at reads
  cases reads with
  | zero unpacked =>
      rw [Decimal.fixed, unpacked]
      show String.ofList (Decimal.placed 3 0) = "0.000"
      decide
  | finite => exact absurd value (scaled_pos ‹_› _).ne

theorem fixed_of_reads (reads : Reads x p) (bound : 2 ^ (-10 : Int) ≤ p) :
    Decimal.fixed 3 x ∉ ["0.000", "Infinity"] := by
  obtain ⟨m, e, positive, unpacked, -, rfl⟩ := reads.positive ((power_pos _).trans_le bound)
  suffices Decimal.fixed 3 x ≠ "0.000" ∧ Decimal.fixed 3 x ≠ "Infinity" by simpa using this
  by_cases small : Decimal.Small m e
  · have placed : Decimal.fixed 3 x = String.ofList (Decimal.placed 3
        (Decimal.nearest ((quotient m e).1 * 10 ^ 3) (quotient m e).2)) := by
      rw [Decimal.Small, ← Nat.not_le] at small
      simp only [Decimal.fixed, unpacked, Nat.pow_eq, if_neg small, isNegative, Bool.false_eq_true,
        if_false]
    rw [placed]
    refine ⟨fun zero => ?_, fun infinite => ?_⟩
    · have digits := congrArg String.toList zero
      rw [String.toList_ofList] at digits
      refine (nearest_pos bound).ne' (@Decimal.eq_zero_of_placed 3 _ fun c member => ?_)
      have chars : ∀ c ∈ "0.000".toList, c = '0' ∨ c = '.' := by simp
      exact chars c (digits ▸ member)
    · have written := @Decimal.placed_isFixed 3 (by decide)
        (Decimal.nearest ((quotient m e).1 * 10 ^ 3) (quotient m e).2)
      rw [infinite] at written
      exact absurd (written.isDigit_or_point (c := 'I') (by decide)) (by decide)
  · have large : Decimal.fixed 3 x = Decimal.text x := by
      simp only [Decimal.fixed, unpacked, Nat.pow_eq]
      exact if_pos (Nat.not_lt.mp small)
    have exponent : 'e' ∈ (Decimal.fixed 3 x).toList := by
      rw [large, Decimal.text_finite unpacked]
      exact Decimal.layout_exponent (Decimal.point_of_large small)
    refine ⟨fun zero => ?_, fun infinite => ?_⟩
    · exact absurd (zero ▸ exponent) (by decide)
    · exact absurd (infinite ▸ exponent) (by decide)

/-! ### Requests that reach too far -/

/-- A limit that is a number refuses every part that is far enough past the live edge. -/
theorem plan_refuses_far {w : Window} {n : Int} (last : w.lastSequence ≤ n) (limit : Int) :
    ∃ far, ∀ part, far ≤ part → ∃ fault,
      PlaylistRequest.plan ⟨some n, some part⟩ w (.count limit) = .refuse fault := by
  simp only [PlaylistRequest.plan]
  split
  · exact ⟨0, fun _ _ => ⟨_, rfl⟩⟩
  · split
    · exact ⟨0, fun _ _ => ⟨_, rfl⟩⟩
    · split
      · refine ⟨limit, fun part far => ?_⟩
        have refused : (PartLimit.count limit).refuses (-1) part = true :=
          decide_eq_true (by omega)
        simp only [PlaylistRequest.planNext, refused, if_true]
        exact ⟨_, rfl⟩
      · split
        · exact ⟨0, fun _ _ => ⟨_, rfl⟩⟩
        · rename_i segment _
          obtain rfl : n = w.lastSequence := by omega
          refine ⟨segment.partCount + limit, fun part far => ?_⟩
          have refused : (PartLimit.count limit).refuses (segment.partCount - 1) part = true :=
            decide_eq_true (by omega)
          simp only [PlaylistRequest.planPresent, refused, decide_true, Bool.and_self, if_true]
          exact ⟨_, rfl⟩

/-! ### Loaded configurations -/

/-- A configuration that was loaded, with whatever reader of documents, gives settings that are usable
exactly between two bounds of the part duration. Outside of them the part target is written as zero or
as infinity; between them it is not, and every request that reaches far enough past the live edge is
refused. -/
theorem loaded_settings_usable_iff (read : String → Option Yaml) (around : Surroundings) :
    let config := (Config.loadBy read around).config.streamingConfig
    let settings : Settings := derive config.segmentDuration config.partDuration
    (∃ n : Int, integer? settings.targetDuration = some n ∧ 1 ≤ n) ∧
    (Usable settings ↔
      5e-7 ≤ config.partDuration ∧ config.partDuration < 1.797693134862316e302) ∧
    (Usable settings ↔ Decimal.fixed 3 settings.partTargetDuration ∉ ["0.000", "Infinity"]) ∧
    (Usable settings → ∀ (w : Window) (n : Int), w.lastSequence ≤ n →
      ∃ far, ∀ part, far ≤ part → ∃ fault,
        PlaylistRequest.plan ⟨some n, some part⟩ w settings.partLimit = .refuse fault) := by
  intro config settings
  obtain ⟨segment, part, givenSegment, givenPart, ⟨finite, positive⟩, ⟨finite', positive'⟩, -⟩ :=
    (Config.loadBy_valid read around).1
  have first : config.segmentDuration = segment := by
    show Config.number (Config.loadBy read around).config.streaming "segmentDuration" = segment
    rw [Config.number, (Config.get_eq_number_iff ..).mpr givenSegment]
  have second : config.partDuration = part := by
    show Config.number (Config.loadBy read around).config.streaming "partDuration" = part
    rw [Config.number, (Config.get_eq_number_iff ..).mpr givenPart]
  rw [← first] at finite positive
  rw [← second] at finite' positive'
  have usable := derive_usable_iff ⟨positive, finite⟩ ⟨positive', finite'⟩
  have low : isFinite 5e-7 = true := reads_low.isFinite
  refine ⟨derive_target positive finite _, ?_, ?_, fun usable w n last => ?_⟩
  · rw [usable, not_lt_iff finite' low]
  · rw [usable]
    rcases partTarget_cases positive' finite' with ⟨small, zero⟩ | ⟨high, infinite⟩ |
      ⟨small, high, _, _, -, -, target, bound⟩
    · refine iff_of_false (fun within => within.1 small) fun other => other ?_
      have text : Decimal.fixed 3 settings.partTargetDuration = "0.000" := fixed_zero zero
      rw [text]
      decide
    · refine iff_of_false (fun within => high within.2) fun other => other ?_
      have text : Decimal.fixed 3 settings.partTargetDuration = "Infinity" := by
        show Decimal.fixed 3 (partTargetMillis config.partDuration / 1e3) = _
        rw [Decimal.fixed, infinite, Decimal.text, infinite]
        rfl
      rw [text]
      decide
    · exact iff_of_true ⟨small, high⟩ (fixed_of_reads target bound)
  · obtain ⟨limit, whole, -⟩ := usable.limit
    have count : settings.partLimit = .count limit := by rw [partLimit, PartLimit.ofFloat, whole]
    rw [count]
    exact plan_refuses_far last limit

/-- The defaults are usable. -/
theorem default_settings_usable :
    let config := (Config.load ⟨"config.yml", "/app", .absent, []⟩).config.streamingConfig
    Usable (derive config.segmentDuration config.partDuration) :=
  (loaded_settings_usable_iff Yaml.parse? ⟨"config.yml", "/app", .absent, []⟩).2.1.mpr
    ⟨by decide +kernel, by decide +kernel⟩

/-- A part duration of a tenth of a microsecond is taken over without a warning, and gives a part
target of zero and a limit that refuses nothing. -/
theorem tiny_part_duration_is_unusable :
    let loaded := Config.load ⟨"config.yml", "/app", .text "streaming:\n  partDuration: 1e-7", []⟩
    let config := loaded.config.streamingConfig
    let settings : Settings := derive config.segmentDuration config.partDuration
    loaded.warnings = [] ∧ loaded.errors = [] ∧ ¬ 0.0 < settings.partTargetDuration ∧
      Decimal.fixed 3 settings.partTargetDuration = "0.000" ∧
      settings.partLimit.text = "Infinity" := by
  decide +kernel

end LiveHls.Settings
