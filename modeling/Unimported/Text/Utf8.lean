/-!
# Reading UTF-8

Bytes are read one at a time.  Between two characters the reader is at rest; inside a character
it knows what has been read, how many bytes are missing, and between which bounds the next one
must lie (the second byte of some sequences is bound more tightly, so that no overlong form, no
surrogate and nothing beyond the last code point is read).  A byte out of bounds ends the broken
character and is then read from rest; so every maximal invalid part is reported once.

## Main definitions

* `Utf8.State`, `Utf8.step` — the reader and how a byte moves it.
* `Utf8.units` — what is read from a byte string: characters and invalid parts, in order.
* `Utf8.decode` — the text with a replacement character for each invalid part.
* `Utf8.decode?` — the text of a byte string without invalid parts.

## Main results

* `Utf8.step_lineFeed` — a line feed is read as itself in every state.
-/

namespace Unimported.Text.Utf8

/-- Where the next byte of a character must lie. -/
inductive Bounds where
  /-- Any continuation byte. -/
  | any : Bounds
  /-- Not the overlong form of a two-byte character. -/
  | fromA0 : Bounds
  /-- Not a surrogate. -/
  | to9F : Bounds
  /-- Not the overlong form of a three-byte character. -/
  | from90 : Bounds
  /-- Not beyond the last code point. -/
  | to8F : Bounds
  deriving DecidableEq, Repr

/-- Whether a byte lies within the bounds. -/
def Bounds.admit : Bounds → Nat → Bool
  | .any, b => 0x80 ≤ b && b ≤ 0xBF
  | .fromA0, b => 0xA0 ≤ b && b ≤ 0xBF
  | .to9F, b => 0x80 ≤ b && b ≤ 0x9F
  | .from90, b => 0x90 ≤ b && b ≤ 0xBF
  | .to8F, b => 0x80 ≤ b && b ≤ 0x8F

/-- What the reader knows between two bytes. -/
inductive State where
  /-- Between two characters. -/
  | rest : State
  /-- Inside a character: the bits read, how many bytes are missing after the next one, and where
  the next one must lie. -/
  | inside (bits missing : Nat) (next : Bounds) : State
  deriving DecidableEq, Repr

/-- Read a byte at rest; `none` stands for an invalid part. -/
def start (b : Nat) : List (Option Char) × State :=
  if b < 0x80 then ([some (Char.ofNat b)], .rest)
  else if b < 0xC2 then ([none], .rest)
  else if b < 0xE0 then ([], .inside (b - 0xC0) 0 .any)
  else if b = 0xE0 then ([], .inside 0 1 .fromA0)
  else if b = 0xED then ([], .inside 13 1 .to9F)
  else if b < 0xF0 then ([], .inside (b - 0xE0) 1 .any)
  else if b = 0xF0 then ([], .inside 0 2 .from90)
  else if b < 0xF4 then ([], .inside (b - 0xF0) 2 .any)
  else if b = 0xF4 then ([], .inside 4 2 .to8F)
  else ([none], .rest)

/-- Read a byte. -/
def step : State → UInt8 → List (Option Char) × State
  | .rest, b => start b.toNat
  | .inside bits missing next, b =>
      if next.admit b.toNat then
        let bits := bits * 64 + (b.toNat - 0x80)
        match missing with
        | 0 => ([some (Char.ofNat bits)], .rest)
        | m + 1 => ([], .inside bits m .any)
      else
        let (units, state) := start b.toNat
        (none :: units, state)

/-- What is still reported when the bytes end. -/
def finish : State → List (Option Char)
  | .rest => []
  | .inside .. => [none]

/-- What is read from a byte string, starting in a given state. -/
def unitsFrom : State → List UInt8 → List (Option Char)
  | state, [] => finish state
  | state, b :: bytes =>
      let (units, state) := step state b
      units ++ unitsFrom state bytes

/-- The characters and invalid parts of a byte string. -/
def units (bytes : List UInt8) : List (Option Char) := unitsFrom .rest bytes

/-- The replacement character stands for an invalid part. -/
def replacement : Char := '\uFFFD'

/-- The text of a byte string, each invalid part replaced. -/
def decode (bytes : List UInt8) : List Char := (units bytes).map (·.getD replacement)

/-- The text of a byte string that has no invalid part. -/
def decode? (bytes : List UInt8) : Option (List Char) := (units bytes).mapM id

/-- The bytes of a text. -/
def encode (cs : List Char) : List UInt8 := cs.flatMap String.utf8EncodeChar

/-- A line feed ends what was open, is read as itself and leaves the reader at rest. -/
theorem step_lineFeed (state : State) : step state 0x0A = (finish state ++ [some '\n'], .rest) := by
  cases state with
  | rest => decide
  | inside bits missing next => cases next <;> rfl

example : decode [0xE2, 0x82, 0x41, 0xFF] = [replacement, 'A', replacement] := by decide

end Unimported.Text.Utf8
