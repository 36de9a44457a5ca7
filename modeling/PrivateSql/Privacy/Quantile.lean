import PrivateSql.Number
/-!
# Quantiles of the normal distribution

The quantile of a probability is the number that a standard normal variable stays below with that
probability. It is computed by three quotients of polynomials: one around the median, one for the
tails and one for the far tails, each right to about sixteen digits.

* `normalQuantile` — the quantile of a probability.
-/

namespace PrivateSql

variable {N : Type} [Number N]

/-- A polynomial by its coefficients, the constant one first. Each is written by its digits and the
number of its decimal places. -/
def polynomial (coefficients : List (Nat × Nat)) (x : N) : N :=
  coefficients.foldr (fun (digits, places) rest => Number.ofDecimal digits (-places) + x * rest)
    Number.zero

/-- The quotient of two polynomials. -/
def quotient (above below : List (Nat × Nat)) (x : N) : N :=
  polynomial above x / polynomial below x

/-- The quantile over its distance from one half, near the median. -/
def centralQuotient : N → N :=
  quotient
    [(33871328727963666080, 19), (13314166789178437745, 17), (19715909503065514427, 16),
      (13731693765509461125, 15), (45921953931549871457, 15), (67265770927008700853, 15),
      (33430575583588128105, 15), (25090809287301226727, 16)]
    [(1, 0), (42313330701600911252, 18), (68718700749205790830, 17), (53941960214247511077, 16),
      (21213794301586595867, 15), (39307895800092710610, 15), (28729085735721942674, 15),
      (52264952788528545610, 16)]

/-- The quantile in the tails. -/
def tailQuotient : N → N :=
  quotient
    [(142343711074968357734, 20), (463033784615654529590, 20), (576949722146069140550, 20),
      (364784832476320460504, 20), (127045825245236838258, 20), (241780725177450611770, 21),
      (227238449892691845833, 22), (774545014278341407640, 24)]
    [(1, 0), (205319162663775882187, 20), (167638483018380384940, 20), (689767334985100004550, 21),
      (148103976427480074590, 21), (151986665636164571966, 22), (547593808499534494600, 24),
      (105075007164441684324, 29)]

/-- The quantile in the far tails. -/
def farTailQuotient : N → N :=
  quotient
    [(665790464350110377720, 20), (546378491116411436990, 20), (178482653991729133580, 20),
      (296560571828504891230, 21), (265321895265761230930, 22), (124266094738807843860, 23),
      (271155556874348757815, 25), (201033439929228813265, 27)]
    [(1, 0), (599832206555887937690, 21), (136929880922735805310, 21), (148753612908506148525, 22),
      (786869131145613259100, 24), (184631831751005468180, 25), (142151175831644588870, 27),
      (204426310338993978564, 35)]

/-- The quantile of a probability: infinite at both ends. -/
def normalQuantile (p : N) : N :=
  let half : N := Number.ofDecimal 5 (-1)
  let distance := p - half
  if Number.le (Number.abs distance) (Number.ofDecimal 425 (-3)) then
    distance * centralQuotient (Number.ofDecimal 180625 (-6) - distance * distance)
  else
    let below := Number.lt distance Number.zero
    let tail := if below then p else Number.one - p
    let magnitude : N :=
      if Number.le tail Number.zero then Number.infinity
      else
        let r := Number.sqrt (-(Number.log tail))
        if Number.le r (Number.ofInt 5) then tailQuotient (r - Number.ofDecimal 16 (-1))
        else farTailQuotient (r - Number.ofInt 5)
    if below then -magnitude else magnitude

end PrivateSql
