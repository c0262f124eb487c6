/-! The time put on events: wall-clock milliseconds that never go back. -/

namespace HomeAutomation

structure Clock where
  latest : Int := 0

namespace Clock

def now (c : Clock) (wall : Int) : Int × Clock :=
  let t := max c.latest wall
  (t, ⟨t⟩)

def times (c : Clock) : List Int → List Int
  | [] => []
  | wall :: rest => (c.now wall).1 :: times (c.now wall).2 rest

end Clock

end HomeAutomation
