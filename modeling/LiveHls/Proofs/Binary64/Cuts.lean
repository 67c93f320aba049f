import LiveHls.Proofs.Binary64.Arithmetic
/-! Bounds that a division moves. The quotients below one of them are those of the numbers below the bound
times the divisor, although a quotient is rounded. -/
namespace LiveHls.Binary64

variable {m n : Nat} {e k : Int} {x y z base : Float} {p r v β : ℚ}

/-- Of the numbers from the divisor on, those below `β * v` have their quotients below `v`. -/
def Cut (base : Float) (β v : ℚ) : Prop :=
  ∀ ⦃x : Float⦄ ⦃p r : ℚ⦄, Reads x p → Reads (x / base) r → Rounds (p / β) r → β ≤ p →
    (r < v ↔ p < β * v)

/-- A division by a power of two is exact. -/
theorem cut_binary (v : ℚ) : Cut base 1024 v := by
  intro x p r reads _ rounds least
  obtain ⟨m, e, canonical, rfl⟩ := reads.stored
  have high : 10 < 53 + e := by
    have less := least.trans_lt (scaled_lt_two_pow canonical.bits e)
    rw [show (1024 : ℚ) = 2 ^ (10 : Int) by norm_num] at less
    exact (zpow_lt_zpow_iff_right₀ (by norm_num)).mp less
  have exact : scaled m e / 1024 = scaled m (e - 10) := by
    rw [scaled, scaled, zpow_sub₀ (by norm_num)]
    norm_num
    ring
  have stored : Stored (scaled m e / 1024) :=
    ⟨m, e - 10, ⟨canonical.bits, by omega, canonical.long.imp_right (by omega)⟩, exact⟩
  rw [rounds.eq stored, div_lt_iff₀ (by norm_num), mul_comm]

/-- The number is the least from a bound on, and its neighbour below has the same exponent. -/
structure LeastFrom (y : Float) (v : ℚ) (m : Nat) (e : Int) : Prop where
  bits : m < 2 ^ 53
  least : -1074 ≤ e
  long : 2 ^ 52 < m
  reads : Reads y (scaled m e)
  above : scaled (m - 1) e < v
  reaches : v ≤ scaled m e

namespace LeastFrom

theorem canonical (edge : LeastFrom y v m e) : Canonical m e :=
  ⟨edge.bits, edge.least, .inl edge.long.le⟩

theorem stored_pred (edge : LeastFrom y v m e) : Stored (scaled (m - 1) e) := by
  have bits := edge.bits
  have long := edge.long
  exact ⟨m - 1, e, ⟨by omega, edge.least, .inl (by omega)⟩, rfl⟩

/-- The bound and the least number from it on compare in the same way with every number. -/
theorem lt_iff (edge : LeastFrom y v m e) (reads : Reads x p) : x < y ↔ p < v := by
  rw [reads.lt_iff edge.reads]
  obtain ⟨b, c, own, rfl⟩ := reads.stored
  exact ⟨fun less => (scaled_le_pred own edge.canonical edge.long less).trans_lt edge.above,
    fun less => less.trans_le edge.reaches⟩

theorem le_iff (edge : LeastFrom y v m e) (reads : Reads x p) : y ≤ x ↔ v ≤ p := by
  rw [← not_lt_iff reads.isFinite edge.reads.isFinite, edge.lt_iff reads, not_lt]

/-- A cut is found at one number and its two neighbours. -/
theorem cut (edge : LeastFrom y v m e) (multiple : LeastFrom z (β * v) n k) (quotient : z / base = y)
    (bits : n + 1 < 2 ^ 53) (positive : 0 < β) (low : scaled (n - 1) k / β ≤ scaled (m - 1) e)
    (high : scaled m e ≤ scaled (n + 1) k / β) : Cut base β v := by
  intro x p r reads result rounds _
  rw [← edge.lt_iff result, ← multiple.lt_iff reads, result.lt_iff edge.reads,
    reads.lt_iff multiple.reads]
  obtain ⟨b, c, own, rfl⟩ := reads.stored
  rcases lt_trichotomy (scaled b c) (scaled n k) with less | equal | greater
  · have most := scaled_le_pred own multiple.canonical multiple.long less
    refine iff_of_true ?_ less
    calc
      r ≤ scaled (m - 1) e :=
        rounds.le edge.stored_pred ((div_le_div_of_nonneg_right most positive.le).trans low)
      _ < scaled m e := edge.above.trans_le edge.reaches
  · have nonzero : 0 < n := Nat.zero_lt_of_lt multiple.long
    obtain rfl : x = z := (equal ▸ reads).eq multiple.reads (scaled_pos nonzero k)
    rw [quotient] at result
    exact iff_of_false (result.unique edge.reads).not_lt equal.not_lt
  · have least := succ_le_scaled own multiple.canonical bits greater
    have reached := rounds.ge ⟨m, e, edge.canonical, rfl⟩
      (high.trans (div_le_div_of_nonneg_right least positive.le))
    exact iff_of_false reached.not_gt greater.not_gt

end LeastFrom

end LiveHls.Binary64
