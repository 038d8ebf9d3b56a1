/-!
# Integers as decimals

Where an integer meets a decimal it is taken as the decimal nearest to it. Integers of more than 53
bits lie between two decimals as a rule; from halfway between them the one with the even mantissa is
taken.
-/

namespace BlockScript.Decimal

/-- The decimal nearest to an integer. -/
def nearest (n : Int64) : Float := .ofModel (.ofInt64 n)

end BlockScript.Decimal
