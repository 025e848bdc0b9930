import CrateBook.Setting.Basic

/-!
# Members of a set

A set of numbers lists them by their places in a table with more places than numbers. A
number's first place is its residue modulo the number of places, and where that is taken,
places further on are tried. Other sets list their members in the order in which these came
in.
-/
namespace CrateBook.Scalar

/-- The prime modulo which numbers get their residues, `2 ^ 61 - 1`. -/
def residuePrime : Nat := 0x1FFFFFFFFFFFFFFF

/-- The residue of a number without bounds. -/
def boundlessResidue : Nat := 314159

/-- The residue of a quotient whose lower part is a power of two. -/
def residueOf (num den : Nat) : Nat :=
  if den = 0 then boundlessResidue
  else num * Nat.pow 2 (61 - Nat.log2 den % 61) % residuePrime

/-- The residue of a number as a word: one below zero counts back from the largest word, and
minus one is no residue. -/
def residue? (s : Scalar) : Option UInt64 :=
  match s.number? with
  | none => none
  | some ⟨0, 0⟩ => none
  | some ⟨n, d⟩ =>
    let r := residueOf n.natAbs d
    if n < 0 then some (0 - (if r = 1 then 2 else r.toUInt64)) else some r.toUInt64

/-- The least power of two above a number, from a power of two on. -/
def powerAbove (least : Nat) : Nat → Nat → Nat
  | 0, p => p
  | n + 1, p => if least < p then p else powerAbove least n (2 * p)

/-- How many places the table for so many numbers has. -/
def placesFor (count : Nat) : Nat := if count < 5 then 8 else powerAbove (2 * count) count 8

/-- A table of places. -/
abbrev Places := Array (Option Scalar)

/-- How many places behind the first one are tried before jumping. -/
def runLength : Nat := 9

/-- The first free one of the places that a run of tries starts at. -/
def freeInRun? (t : Places) (start : Nat) : Option Nat :=
  let run := if start + runLength < t.size then runLength + 1 else 1
  ((List.range run).map (start + ·)).find? fun i => (t.getD i none).isNone

/-- Puts a number at the first free place that it finds, starting from a place. A residue
gives out after a few jumps, and from then on the jumps pass through all places. -/
def place (s : Scalar) : Nat → Nat → Nat → Places → Places
  | 0, _, _, t => t
  | n + 1, start, residue, t =>
    match freeInRun? t start with
    | some i => t.setIfInBounds i (some s)
    | none => place s n ((start * 5 + 1 + residue / 32) % t.size) (residue / 32) t

/-- The members of a set in the order in which it lists them. -/
def listed (ks : List Scalar) : List Scalar :=
  let size := placesFor ks.length
  match ks.mapM fun k => k.residue?.map fun r => (k, r.toNat) with
  | none => ks
  | some rs =>
    let table := rs.foldl
      (fun t (k, r) => place k (size + 16) (r % size) r t) (Array.replicate size none)
    table.toList.filterMap id

end CrateBook.Scalar
