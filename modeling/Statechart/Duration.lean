/-!
# Durations

A length of time in nanoseconds, below two to the 64 seconds. A sum may leave that
range, so addition is partial; subtraction stops at zero.
-/

namespace Statechart

structure Duration where
  nanos : Nat
  inRange : nanos < 18_446_744_073_709_551_616 * 1_000_000_000
  deriving DecidableEq

namespace Duration

def zero : Duration := ⟨0, by decide⟩

instance : Inhabited Duration := ⟨zero⟩

instance : LE Duration := ⟨fun a b => a.nanos ≤ b.nanos⟩

instance : LT Duration := ⟨fun a b => a.nanos < b.nanos⟩

instance (a b : Duration) : Decidable (a ≤ b) := inferInstanceAs (Decidable (a.nanos ≤ b.nanos))

instance (a b : Duration) : Decidable (a < b) := inferInstanceAs (Decidable (a.nanos < b.nanos))

theorem le_def {a b : Duration} : a ≤ b ↔ a.nanos ≤ b.nanos := Iff.rfl

theorem lt_def {a b : Duration} : a < b ↔ a.nanos < b.nanos := Iff.rfl

theorem ext_nanos {a b : Duration} (same : a.nanos = b.nanos) : a = b := by
  cases a; cases b; cases same; rfl

def ofNanos? (nanos : Nat) : Option Duration :=
  if inRange : nanos < 18_446_744_073_709_551_616 * 1_000_000_000 then some ⟨nanos, inRange⟩
  else none

def ofMillis (millis : UInt64) : Duration :=
  ⟨millis.toNat * 1_000_000, by have := millis.toNat_lt; omega⟩

def add? (a b : Duration) : Option Duration := ofNanos? (a.nanos + b.nanos)

def monus (a b : Duration) : Duration := ⟨a.nanos - b.nanos, by have := a.inRange; omega⟩

def latest (a b : Duration) : Duration := if a ≤ b then b else a

/-- Whole milliseconds, rounded up, and at most the largest word. -/
def ceilMillis (d : Duration) : UInt64 :=
  UInt64.ofNat (min ((d.nanos + 999_999) / 1_000_000) 18_446_744_073_709_551_615)

end Duration

end Statechart
