/-!
# Reading bytes as UTF-8

Bytes are read by a machine that holds what a character that has begun still owes.  Its output
is a list of units: a character, or one maximal ill-formed part, that is, the longest start of a
well-formed sequence or else a single byte; the part is written `none`.  `decode` writes U+FFFD for
every ill-formed part; `decode?` refuses them.

    unitsFrom_append_ready : what is read after a complete unit does not depend on it
    decode?_eq_some        : a text without ill-formed parts is read the same by both
-/

namespace CallAlign.Utf8

/-! ## The machine -/

/-- Between characters, or inside one: the number of bytes owed after the next one, the least and
the greatest byte the next one may be, and the bits read so far. -/
inductive State where
  | ready
  | within (owed : Nat) (low high : UInt8) (bits : Nat)
  deriving DecidableEq, Repr

/-- A byte read between characters. -/
def first (b : UInt8) : List (Option Char) × State :=
  if b < 0x80 then ([some (Char.ofNat b.toNat)], .ready)
  else if b < 0xC2 then ([none], .ready)
  else if b < 0xE0 then ([], .within 0 0x80 0xBF (b.toNat % 32))
  else if b = 0xE0 then ([], .within 1 0xA0 0xBF 0)
  else if b = 0xED then ([], .within 1 0x80 0x9F 13)
  else if b < 0xF0 then ([], .within 1 0x80 0xBF (b.toNat % 16))
  else if b = 0xF0 then ([], .within 2 0x90 0xBF 0)
  else if b < 0xF4 then ([], .within 2 0x80 0xBF (b.toNat % 8))
  else if b = 0xF4 then ([], .within 2 0x80 0x8F 4)
  else ([none], .ready)

/-- One byte.  A byte that cannot go on ends the part before it and is read afresh. -/
def step : State → UInt8 → List (Option Char) × State
  | .ready, b => first b
  | .within owed low high bits, b =>
    if low ≤ b && b ≤ high then
      match owed with
      | 0 => ([some (Char.ofNat (bits * 64 + b.toNat % 64))], .ready)
      | n + 1 => ([], .within n 0x80 0xBF (bits * 64 + b.toNat % 64))
    else
      (none :: (first b).1, (first b).2)

/-- A character cut off by the end of the bytes is an ill-formed part. -/
def State.finish : State → List (Option Char)
  | .ready => []
  | .within .. => [none]

def unitsFrom (s : State) : List UInt8 → List (Option Char)
  | [] => s.finish
  | b :: bs => (step s b).1 ++ unitsFrom (step s b).2 bs

/-- The units of a byte string. -/
def units (bs : List UInt8) : List (Option Char) := unitsFrom .ready bs

/-! ## Decoding and encoding -/

/-- U+FFFD, written for an ill-formed part. -/
def replacement : Char := '\uFFFD'

/-- The text of any bytes, with one U+FFFD for each ill-formed part. -/
def decode (bs : List UInt8) : List Char := (units bs).map (·.getD replacement)

/-- The text of well-formed bytes only. -/
def decode? (bs : List UInt8) : Option (List Char) := (units bs).mapM id

/-- The bytes of a text. -/
def encode (cs : List Char) : List UInt8 := cs.flatMap String.utf8EncodeChar

/-! ## Lemmas -/

/-- The state after some bytes. -/
def run (s : State) : List UInt8 → State
  | [] => s
  | b :: bs => run (step s b).2 bs

/-- The units completed by some bytes, without the one that the end would cut off. -/
def emitted (s : State) : List UInt8 → List (Option Char)
  | [] => []
  | b :: bs => (step s b).1 ++ emitted (step s b).2 bs

theorem unitsFrom_append (s : State) (bs cs : List UInt8) :
    unitsFrom s (bs ++ cs) = emitted s bs ++ unitsFrom (run s bs) cs := by
  induction bs generalizing s with
  | nil => simp [emitted, run]
  | cons b bs ih => simp [unitsFrom, emitted, run, ih]

theorem unitsFrom_eq_emitted_append (s : State) (bs : List UInt8) :
    unitsFrom s bs = emitted s bs ++ (run s bs).finish := by
  simpa [unitsFrom] using unitsFrom_append s bs []

/-- What is read after complete units does not depend on them. -/
theorem unitsFrom_append_ready {s : State} {bs : List UInt8} (h : run s bs = .ready)
    (cs : List UInt8) : unitsFrom s (bs ++ cs) = unitsFrom s bs ++ units cs := by
  simp [unitsFrom_append, unitsFrom_eq_emitted_append s bs, h, State.finish, units]

theorem mapM_id_eq_some {us : List (Option Char)} {cs : List Char} (h : us.mapM id = some cs) :
    us = cs.map some := by
  induction us generalizing cs with
  | nil => simp_all
  | cons u us ih =>
    cases u with
    | none => simp at h
    | some c =>
      cases hm : us.mapM id with
      | none => simp [hm] at h
      | some ds =>
        simp [hm] at h
        subst h
        simp [ih hm]

/-- A text without ill-formed parts is read the same by both decoders. -/
theorem decode?_eq_some {bs : List UInt8} {cs : List Char} (h : decode? bs = some cs) :
    decode bs = cs := by
  simp [decode, mapM_id_eq_some h, Function.comp_def]

end CallAlign.Utf8
