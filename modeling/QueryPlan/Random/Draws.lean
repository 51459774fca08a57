/-!
# Sources of random codes

A source of random codes is the sequence of all codes that it ever gives, together with how many of
them were taken. What a program does with a source can then be compared between any two sequences.

A seed determines a source by the generator MT19937: 624 words of 32 bits, of which each is put out
once before all are mixed again. It is seeded with the 32-bit words of an integer's magnitude. A
code below three is drawn from the top two bits of an output, and drawn again while they are three.

## Main definitions

* `Draws` : sources of codes.
* `Twister` : the Mersenne twister.
* `Draws.cycle`, `Draws.ofSeed` : the source that repeats a list, and that of a seed.
-/

namespace QueryPlan

/-- A sequence of codes, and how many of them were taken. -/
structure Draws where
  code : Nat → Int
  taken : Nat := 0

namespace Draws

/-- The next code, and the source after it is taken. -/
def next (d : Draws) : Int × Draws := (d.code d.taken, { d with taken := d.taken + 1 })

/-- The source that repeats a list of codes; without codes it gives zeros. -/
def cycle (codes : Array Int) : Draws :=
  { code := fun n => codes.getD (n % codes.size) 0 }

instance : Inhabited Draws := ⟨cycle #[]⟩

@[simp] theorem next_fst (d : Draws) : d.next.1 = d.code d.taken := rfl

@[simp] theorem taken_next (d : Draws) : d.next.2.taken = d.taken + 1 := rfl

@[simp] theorem code_next (d : Draws) : d.next.2.code = d.code := rfl

end Draws

/-! ### The Mersenne twister -/

/-- The words of the generator, and how many of them were put out. -/
structure Twister where
  words : Array UInt32
  used : Nat

namespace Twister

/-- The number of words. -/
def length : Nat := 624

/-- The word at a place. -/
def word (words : Array UInt32) (i : Nat) : UInt32 := words.getD i 0

/-- The words grown from a single one, `fuel` more of them. -/
def grow : Nat → Array UInt32 → Array UInt32
  | 0, words => words
  | fuel + 1, words =>
    let last := word words (words.size - 1)
    grow fuel (words.push ((1812433253 : UInt32) * (last ^^^ (last >>> 30)) + UInt32.ofNat words.size))

/-- The words before a seed is mixed in. -/
def unseeded : Array UInt32 := grow (length - 1) #[19650218]

/-- The place after `i`, going back to the second word after the last one; the first word then
takes over the last one. -/
def advance (words : Array UInt32) (i : Nat) : Array UInt32 × Nat :=
  if i + 1 < length then (words, i + 1)
  else (words.setIfInBounds 0 (word words (length - 1)), 1)

/-- Mixes the words of a seed in, `fuel` times from place `i` and seed word `j` on. -/
def mixSeed (key : Array UInt32) : Nat → Array UInt32 → Nat → Nat → Array UInt32 × Nat
  | 0, words, i, _ => (words, i)
  | fuel + 1, words, i, j =>
    let last := word words (i - 1)
    let mixed :=
      (word words i ^^^ ((last ^^^ (last >>> 30)) * 1664525)) + word key j + UInt32.ofNat j
    let (words, i) := advance (words.setIfInBounds i mixed) i
    mixSeed key fuel words i (if j + 1 < key.size then j + 1 else 0)

/-- Mixes the words among themselves, `fuel` times from place `i` on. -/
def mixPlaces : Nat → Array UInt32 → Nat → Array UInt32
  | 0, words, _ => words
  | fuel + 1, words, i =>
    let last := word words (i - 1)
    let mixed := (word words i ^^^ ((last ^^^ (last >>> 30)) * 1566083941)) - UInt32.ofNat i
    let (words, i) := advance (words.setIfInBounds i mixed) i
    mixPlaces fuel words i

/-- The 32-bit words of a number, the lowest first; zero has one. -/
def seedWords (n : Nat) : List UInt32 :=
  if n < 4294967296 then [UInt32.ofNat n] else UInt32.ofNat n :: seedWords (n / 4294967296)
  termination_by n
  decreasing_by exact Nat.div_lt_self (by omega) (by decide)

/-- The generator seeded with the magnitude of an integer. -/
def ofSeed (seed : Int) : Twister :=
  let key := (seedWords seed.natAbs).toArray
  let (words, i) := mixSeed key (max length key.size) unseeded 1 0
  let words := mixPlaces (length - 1) words i
  { words := words.setIfInBounds 0 0x80000000, used := length }

/-- Twists `fuel` words from place `i` on: each takes its top bit, the other bits of the next word,
and a word further on. -/
def twistFrom : Nat → Nat → Array UInt32 → Array UInt32
  | 0, _, words => words
  | fuel + 1, i, words =>
    let y := (word words i &&& 0x80000000) ||| (word words ((i + 1) % length) &&& 0x7fffffff)
    let odd : UInt32 := if y &&& 1 = 0 then 0 else 0x9908b0df
    twistFrom fuel (i + 1)
      (words.setIfInBounds i (word words ((i + 397) % length) ^^^ (y >>> 1) ^^^ odd))

/-- A word as it is put out. -/
def temper (y : UInt32) : UInt32 :=
  let y := y ^^^ (y >>> 11)
  let y := y ^^^ ((y <<< 7) &&& 0x9d2c5680)
  let y := y ^^^ ((y <<< 15) &&& 0xefc60000)
  y ^^^ (y >>> 18)

/-- The next output. -/
def next (t : Twister) : UInt32 × Twister :=
  let t := if t.used < length then t else { words := twistFrom length 0 t.words, used := 0 }
  (temper (word t.words t.used), { t with used := t.used + 1 })

/-- The next code below three. Two bits are three once in four times, so hundreds of outputs in a
row do not all have to be drawn again; the last of them would count as zero. -/
def drawBelowThree : Nat → Twister → Int × Twister
  | 0, t => (0, t)
  | fuel + 1, t =>
    let (y, t) := t.next
    let bits := (y >>> 30).toNat
    if bits < 3 then (bits, t) else drawBelowThree fuel t

/-- The code that is drawn after `n` others. -/
def code (t : Twister) : Nat → Int
  | 0 => (drawBelowThree 624 t).1
  | n + 1 => code (drawBelowThree 624 t).2 n

end Twister

/-- The source of codes that a seed determines. -/
def Draws.ofSeed (seed : Int) : Draws :=
  let t := Twister.ofSeed seed
  { code := t.code }

end QueryPlan
