/-! # Durations in hours, minutes and seconds -/

namespace FtpControl.Duration

/-- A number of seconds as `1h2m3s`, without leading units that are zero. -/
def text (seconds : Nat) : String :=
  let hours := seconds / 3600
  let minutes := seconds % 3600 / 60
  let rest := seconds % 60
  if 0 < hours then s!"{hours}h{minutes}m{rest}s"
  else if 0 < minutes then s!"{minutes}m{rest}s"
  else s!"{rest}s"

end FtpControl.Duration
