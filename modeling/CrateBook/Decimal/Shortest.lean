/-!
# The shortest decimal that reads back

A finite positive double is `m · 2 ^ q`. The decimals that read back as this number are
those of an interval whose ends are the midpoints to its neighbours, and belong to it when
`m` is even. Among them the shortest one is taken, and of several shortest ones the one
nearest to the number. All arithmetic is exact, on natural numbers.
-/
namespace CrateBook.Decimal

/-- A positive double as `mantissa · 2 ^ exponent`. -/
structure Binary where
  mantissa : Nat
  exponent : Int

/-- The bit in front of the mantissa of a normal double, `2 ^ 52`. -/
def leadingBit : Nat := 0x10000000000000

/-- The bit of the sign, `2 ^ 63`. -/
def signBit : Nat := 0x8000000000000000

/-- The parts of the finite double with these bits, its sign left out. -/
def Binary.ofBits (bits : Nat) : Binary :=
  let e := bits / leadingBit % 2048
  let f := bits % leadingBit
  if e = 0 then ⟨f, -1074⟩ else ⟨leadingBit + f, Int.ofNat e - 1075⟩

/-- A quotient of natural numbers. -/
structure Ratio where
  num : Nat
  den : Nat

/-- The quotient `n · 2 ^ e`. -/
def Ratio.scaled (n : Nat) (e : Int) : Ratio :=
  if 0 ≤ e then ⟨n * Nat.pow 2 e.toNat, 1⟩ else ⟨n, Nat.pow 2 (-e).toNat⟩

/-- The quotient `n · 10 ^ e`. -/
def Ratio.decimal (n : Nat) (e : Int) : Ratio :=
  if 0 ≤ e then ⟨n * Nat.pow 10 e.toNat, 1⟩ else ⟨n, Nat.pow 10 (-e).toNat⟩

def Ratio.lt (a b : Ratio) : Bool := a.num * b.den < b.num * a.den

/-- The distance between two quotients. -/
def Ratio.dist (a b : Ratio) : Ratio :=
  ⟨(a.num * b.den - b.num * a.den) + (b.num * a.den - a.num * b.den), a.den * b.den⟩

/-- The decimal reads back as the double: it is nearer to it than to its neighbours, or as near
and the double is even. -/
def Binary.reads (b : Binary) (x : Ratio) : Bool :=
  let below := if b.mantissa = leadingBit ∧ -1074 < b.exponent then 1 else 2
  let low := Ratio.scaled (4 * b.mantissa - below) (b.exponent - 2)
  let high := Ratio.scaled (4 * b.mantissa + 2) (b.exponent - 2)
  if b.mantissa % 2 = 0 then !x.lt low && !high.lt x else low.lt x && x.lt high

/-- How many decimal digits a natural number has. -/
def width (n : Nat) : Nat := (Nat.toDigits 10 n).length

/-- The exponent `e` with `10 ^ (e - 1) ≤ x < 10 ^ e`, for a positive quotient. -/
def Ratio.magnitude (x : Ratio) : Int :=
  let e : Int := (width x.num : Int) - width x.den
  if x.lt (Ratio.decimal 1 e) then e else e + 1

/-- The decimal `digits · 10 ^ exponent`. -/
structure Digits where
  digits : Nat
  exponent : Int

/-- The decimal of at most `n` digits that reads back as the double and is nearest to it,
an even one of two that are equally near. -/
def Binary.ofWidth? (b : Binary) (n : Nat) : Option Digits :=
  let v := Ratio.scaled b.mantissa b.exponent
  let e := v.magnitude - n
  let unit := Ratio.decimal 1 e
  let low := v.num * unit.den / (v.den * unit.num)
  let at_ (d : Nat) := Ratio.decimal d e
  let lowFits := b.reads (at_ low)
  let highFits := b.reads (at_ (low + 1))
  if lowFits && highFits then
    let dl := (at_ low).dist v
    let dh := (at_ (low + 1)).dist v
    if dl.lt dh || (!dh.lt dl && low % 2 == 0) then some ⟨low, e⟩ else some ⟨low + 1, e⟩
  else if lowFits then some ⟨low, e⟩
  else if highFits then some ⟨low + 1, e⟩
  else none

/-- The shortest decimal that reads back as a positive double; seventeen digits always do. -/
def Binary.shortest (b : Binary) : Digits :=
  ((List.range 17).findSome? fun n => b.ofWidth? (n + 1)).getD ⟨0, 0⟩

/-- Drops zeros at the end of the digits, moving them into the exponent. -/
def Digits.normalize : Nat → Digits → Digits
  | 0, d => d
  | n + 1, d =>
    if d.digits % 10 = 0 ∧ d.digits ≠ 0 then
      Digits.normalize n ⟨d.digits / 10, d.exponent + 1⟩
    else d

/-- A float's text: positional from `10 ^ -4` up to below `10 ^ 16`, with a point always;
otherwise with an exponent of a sign and two digits at least. -/
def Digits.text (d : Digits) : String :=
  let ds := Nat.toDigits 10 d.digits
  let point : Int := (ds.length : Int) + d.exponent
  if -4 < point ∧ point ≤ 16 then
    if point ≤ 0 then
      String.ofList ('0' :: '.' :: (List.replicate (-point).toNat '0' ++ ds))
    else
      let p := point.toNat
      if ds.length ≤ p then
        String.ofList (ds ++ List.replicate (p - ds.length) '0' ++ ['.', '0'])
      else String.ofList (ds.take p ++ '.' :: ds.drop p)
  else
    let e := point - 1
    let eds := Nat.toDigits 10 e.natAbs
    let head := match ds with
      | [] => []
      | [c] => [c]
      | c :: cs => c :: '.' :: cs
    String.ofList (head ++ 'e' :: (if e < 0 then '-' else '+') ::
      (if eds.length < 2 then '0' :: eds else eds))

/-- The words for the numbers that no decimal writes. -/
structure Words where
  nan : String
  infinity : String

/-- A double as text: the fewest digits that read back. -/
def text (words : Words) (x : Float) : String :=
  let bits := x.toBits.toNat
  let sign := if bits / signBit = 1 then "-" else ""
  let rest := bits % signBit
  if rest / leadingBit = 2047 then
    if rest % leadingBit = 0 then sign ++ words.infinity else words.nan
  else if rest = 0 then sign ++ "0.0"
  else sign ++ (Digits.normalize 17 (Binary.ofBits rest).shortest).text

end CrateBook.Decimal
