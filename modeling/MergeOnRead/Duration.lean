/-!
# Durations

Time limits, counted in nanoseconds, and the milliseconds until they are over. A duration is shown in
its largest unit that is not below one, with the digits after the point that are not zero at the end:
`1.5ms`, `250µs`, `90s`.

Main statement: `ticks_le_iff`, a limit is over when as many milliseconds as it has ticks have passed,
and not before.
-/

namespace MergeOnRead

/-- A span of time in nanoseconds. -/
structure Duration where
  nanos : Nat
deriving DecidableEq, Repr, Inhabited

namespace Duration

def zero : Duration := ⟨0⟩

def ofMicros (n : Nat) : Duration := ⟨n * 1000⟩

def ofMillis (n : Nat) : Duration := ⟨n * 1000000⟩

/-- The number of milliseconds that have to pass until a duration is over. -/
def ticks (d : Duration) : Nat := (d.nanos + 999999) / 1000000

/-- A duration is over at a tick exactly if it is not longer than that many milliseconds. -/
theorem ticks_le_iff {d : Duration} {n : Nat} : d.ticks ≤ n ↔ d.nanos ≤ (ofMillis n).nanos := by
  simp only [ticks, ofMillis]
  omega

theorem ticks_ofMillis (n : Nat) : (ofMillis n).ticks = n := by
  simp only [ticks, ofMillis]
  omega

/-- A count of `10 ^ places` parts in whole units: the digits after the point stop at the last one
that is not zero. -/
def scaledText (n places : Nat) : String :=
  let fraction := Nat.toDigits 10 (n % Nat.pow 10 places)
  let padded := List.replicate (places - fraction.length) '0' ++ fraction
  let kept := (padded.reverse.dropWhile (· = '0')).reverse
  if n % Nat.pow 10 places = 0 then toString (n / Nat.pow 10 places)
  else toString (n / Nat.pow 10 places) ++ "." ++ String.ofList kept

def text (d : Duration) : String :=
  if 1000000000 ≤ d.nanos then scaledText d.nanos 9 ++ "s"
  else if 1000000 ≤ d.nanos then scaledText d.nanos 6 ++ "ms"
  else if 1000 ≤ d.nanos then scaledText d.nanos 3 ++ "µs"
  else toString d.nanos ++ "ns"

example :
    (ofMicros 1500).text = "1.5ms" ∧ (ofMicros 250).text = "250µs" ∧ zero.text = "0ns" ∧
      (ofMicros 1000001).text = "1.000001s" := by
  decide +kernel

end Duration

end MergeOnRead
