import Tarkib.Decimal.Shortest

/-!
# Decimal texts of doubles

Three texts are in use. Documents write the shortest digits with at least one decimal, and go over
to an exponent for very large and very small numbers. Measurements write the shortest digits
without an exponent. Messages for people write a fixed number of decimals.
-/

namespace Tarkib.Decimal

/-- Whether the sign bit of a double is set. -/
def isNegative (x : Float) : Bool :=
  x.toBits.toNat / 0x8000000000000000 == 1

/-- The sign of a double as it is written. -/
def sign (x : Float) : String :=
  if isNegative x then "-" else ""

/-- The text `n` zeros long. -/
def zeros (n : Nat) : String :=
  String.ofList (List.replicate n '0')

/-- The digits of a natural number in base ten. -/
def digitText (n : Nat) : String :=
  String.ofList (Nat.toDigits 10 n)

/-- Writes a decimal without an exponent. `whole` follows when there is nothing behind the point. -/
def positional (d : Decimal) (whole : String) : String :=
  let text := digitText d.digits
  if 0 ≤ d.exponent then text ++ zeros d.exponent.toNat ++ whole
  else
    let point : Int := text.length + d.exponent
    if 0 < point then
      String.ofList (text.toList.take point.toNat) ++ "."
        ++ String.ofList (text.toList.drop point.toNat)
    else "0." ++ zeros (-point).toNat ++ text

/-- Writes a decimal with one digit before the point and an exponent with its sign. -/
def scientific (d : Decimal) : String :=
  let text := (digitText d.digits).toList
  let exponent : Int := text.length - 1 + d.exponent
  let fraction := if text.length ≤ 1 then "" else "." ++ String.ofList (text.drop 1)
  String.ofList (text.take 1) ++ fraction ++ "e" ++ (if 0 ≤ exponent then "+" else "-")
    ++ digitText exponent.natAbs

/-- The text of a finite double in a document: positional from `1e-5` up to, but not including,
`1e16`, and with an exponent elsewhere. -/
def documentText (x : Float) : String :=
  let d := (Binary.ofFloat x).shortest
  let magnitude : Int := (digitText d.digits).length - 1 + d.exponent
  sign x ++
    if d.digits = 0 then "0.0"
    else if -5 ≤ magnitude && magnitude < 16 then positional d ".0"
    else scientific d

/-- The text of a finite double in a measurement: never an exponent, and no point if whole. -/
def plainText (x : Float) : String :=
  sign x ++ positional (Binary.ofFloat x).shortest ""

/-- The text of a finite double with one decimal. -/
def tenthsText (x : Float) : String :=
  let tenths := (Binary.ofFloat x).roundAt 1
  sign x ++ digitText (tenths / 10) ++ "." ++ digitText (tenths % 10)

end Tarkib.Decimal
