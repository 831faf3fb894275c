import JamJet.DateTimeText

/-! Times as a text column keeps them, RFC 3339 with as many digits of a second as it takes,
and the order in which the texts come. -/

namespace JamJet.Gregorian

/-- The fraction of a second: nothing, or three, six or nine digits. -/
def writeFraction (nanos : ℕ) : List Char :=
  if nanos = 0 then []
  else if nanos % 1000000 = 0 then '.' :: digits 3 (nanos / 1000000)
  else if nanos % 1000 = 0 then '.' :: digits 6 (nanos / 1000)
  else '.' :: digits 9 nanos

/-- The order of texts: by the first character in which they differ. -/
def textBefore : List Char → List Char → Bool
  | _, [] => false
  | [], _ :: _ => true
  | c :: x, d :: y => c.toNat < d.toNat || (c = d && textBefore x y)

def utcOffset : List Char := ['+', '0', '0', ':', '0', '0']

/-- `to_rfc3339` of a time in UTC, given by the nanoseconds from the epoch. -/
def toRfc3339 (ns : ℤ) : List Char :=
  let f := Fields.ofMillis (ns / 1000000)
  writeYear f.year ++ '-' :: (digits 2 f.month ++ '-' :: (digits 2 f.day ++
    'T' :: (digits 2 f.hour ++ ':' :: (digits 2 f.minute ++ ':' :: (digits 2 f.second ++
      (writeFraction (ns % 1000000000).toNat ++ utcOffset))))))

end JamJet.Gregorian
