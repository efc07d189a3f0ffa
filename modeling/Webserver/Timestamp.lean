import Webserver.Library.Decimal

/-! The time stamps of `Timestamp.cc` and their texts. `localtime` is an argument: any
function from seconds to calendar fields. -/

namespace Webserver
open Library

/-- The fields of `struct tm` that are printed. -/
structure Tm where
  tm_year : Int
  tm_mon : Int
  tm_mday : Int
  tm_hour : Int
  tm_min : Int
  tm_sec : Int

structure Timestamp where
  microSecondsSinceEpoch_ : Int

/-- The characters that `snprintf` leaves in a buffer, in front of the terminator. -/
def snprintf (size : Nat) (text : List Char) : List Char := text.take (size - 1)

/-- The format `%4d/%02d/%02d %02d:%02d:%02d`. -/
def formatTm (tm : Tm) : List Char :=
  spacePadded 4 (tm.tm_year + 1900) ++ '/' :: zeroPadded 2 (tm.tm_mon + 1) ++ '/' :: zeroPadded 2 tm.tm_mday ++
    ' ' :: zeroPadded 2 tm.tm_hour ++ ':' :: zeroPadded 2 tm.tm_min ++ ':' :: zeroPadded 2 tm.tm_sec

namespace Timestamp

def kMicroSecondsPerSecond : Int := 1000 * 1000

def secondsSinceEpoch (timestamp : Timestamp) : Int := timestamp.microSecondsSinceEpoch_.tdiv kMicroSecondsPerSecond

/-- The rest of the division by which the seconds are computed. -/
def microseconds (timestamp : Timestamp) : Int := timestamp.microSecondsSinceEpoch_.tmod kMicroSecondsPerSecond

section Clock
variable (localtime : Int → Tm)

/-- `localtime` is passed the microseconds. -/
def toString (timestamp : Timestamp) : List Char := snprintf 128 (formatTm (localtime timestamp.microSecondsSinceEpoch_))

def toFormattedString (showMicroseconds : Bool) (timestamp : Timestamp) : List Char :=
  let tm := localtime timestamp.secondsSinceEpoch
  if showMicroseconds then snprintf 64 (formatTm tm ++ '.' :: zeroPadded 6 timestamp.microseconds)
  else snprintf 64 (formatTm tm)

end Clock

end Timestamp

theorem length_formatTm (tm : Tm) : 19 ≤ (formatTm tm).length := by
  simp only [formatTm, List.length_append, List.length_cons, length_spacePadded, length_zeroPadded]
  omega

end Webserver
