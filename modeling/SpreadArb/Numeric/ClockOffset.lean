import Mathlib

namespace Numeric.ClockOffset

/-- The offset of a remote clock, from its reading and what the own clock showed before the request
for it and after the answer. -/
def estimate (reading before after : ℤ) : ℤ := reading - (before + after) / 2

variable {T : Type} [Preorder T] {clock server : T → ℤ} {sent answered received t : T}
  {reading drift err : ℤ}

/-- What the remote clock shows during a round trip lies between the own readings at its ends, once
the own clock is put right as it is at `t`. -/
theorem between_readings (hm : Monotone server) (hsent : sent ≤ answered)
    (hreceived : answered ≤ received)
    (hdrift : ∀ u, |(server u - clock u) - (server t - clock t)| ≤ drift) :
    clock sent - drift ≤ server answered - (server t - clock t) ∧
      server answered - (server t - clock t) ≤ clock received + drift := by
  have hlow := hm hsent
  have hhigh := hm hreceived
  obtain ⟨hsent',-⟩ := abs_le.mp (hdrift sent)
  obtain ⟨-,hreceived'⟩ := abs_le.mp (hdrift received)
  constructor
  · linarith
  · linarith

/-- A clock put right by the estimate is off by half the round trip, by what the two clocks have
drifted apart and by the error of the reading. The own clock may have been set back in between. -/
theorem adjusted_close (hm : Monotone server) (hsent : sent ≤ answered)
    (hreceived : answered ≤ received)
    (hdrift : ∀ u, |(server u - clock u) - (server t - clock t)| ≤ drift)
    (herr : |reading - server answered| ≤ err) :
    2 * |clock t + estimate reading (clock sent) (clock received) - server t| ≤
      clock received - clock sent + 1 + 2 * drift + 2 * err := by
  obtain ⟨hlow,hhigh⟩ := between_readings hm hsent hreceived hdrift
  obtain ⟨herr',herr''⟩ := abs_le.mp herr
  unfold estimate
  rcases abs_cases (clock t + (reading - (clock sent + clock received) / 2) - server t) with ⟨h,
    _⟩ | ⟨h,_⟩
  · rw [h]
    omega
  · rw [h]
    omega

end Numeric.ClockOffset
