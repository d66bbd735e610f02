import MarketWire.Bytes.Text

/-!
# Timestamps

A timestamp counts nanoseconds since the beginning of 1970 in universal time. One number stands for
no timestamp.

Dates are reckoned in years that begin in March, so that the day that leap years add is the last
one of its year. Four hundred of them have 146097 days.
-/

namespace MarketWire

namespace Timestamp

/-- The number that stands for no timestamp. -/
def undefined : Nat := 0xFFFFFFFFFFFFFFFF

/-- A day of the calendar. -/
structure Date where
  year : Nat
  month : Nat
  day : Nat
  deriving DecidableEq, Repr

/-- The date so many days after the first of January 1970. -/
def Date.ofDays (days : Nat) : Date :=
  -- The reckoning begins on the first of March of the year 0.
  let sinceMarch := days + 719468
  let dayOfEra := sinceMarch % 146097
  let yearOfEra := (dayOfEra - dayOfEra / 1460 + dayOfEra / 36524 - dayOfEra / 146096) / 365
  let dayOfYear := dayOfEra - (365 * yearOfEra + yearOfEra / 4 - yearOfEra / 100)
  let monthFromMarch := (5 * dayOfYear + 2) / 153
  let day := dayOfYear - (153 * monthFromMarch + 2) / 5 + 1
  let month := if monthFromMarch < 10 then monthFromMarch + 3 else monthFromMarch - 9
  let year := yearOfEra + sinceMarch / 146097 * 400
  ⟨if month ≤ 2 then year + 1 else year, month, day⟩

/-- A timestamp as date and time of day with nine places, as in
`2022-07-21T23:17:31.000000000Z`. -/
def toText (timestamp : Nat) : Text :=
  let seconds := timestamp / 1000000000
  let date := Date.ofDays (seconds / 86400)
  let second := seconds % 86400
  Text.paddedDecimal 4 date.year ++ 0x2D :: Text.paddedDecimal 2 date.month ++
    0x2D :: Text.paddedDecimal 2 date.day ++ 0x54 :: Text.paddedDecimal 2 (second / 3600) ++
    0x3A :: Text.paddedDecimal 2 (second / 60 % 60) ++ 0x3A :: Text.paddedDecimal 2 (second % 60) ++
    0x2E :: Text.paddedDecimal 9 (timestamp % 1000000000) ++ [0x5A]

end Timestamp

end MarketWire
