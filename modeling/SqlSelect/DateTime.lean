/-!
# Dates with a time and an offset

A date and time is kept as the local clock shows it, together with the offset of
that clock. One instant can be read on two clocks, so which dates count as equal
is left to whoever compares them.
-/

namespace SqlSelect

/-- A local reading in the proleptic Gregorian calendar. -/
structure DateTime where
  year : Int
  month : Nat
  day : Nat
  hour : Nat
  minute : Nat
  second : Nat
  nanosecond : Nat
  /-- Seconds by which the local clock is ahead of universal time. -/
  offset : Int
deriving DecidableEq, Repr

end SqlSelect
