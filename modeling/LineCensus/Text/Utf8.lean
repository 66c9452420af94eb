import LineCensus.Text.Quoted

/-! Strict UTF-8: the shortest form of each scalar value and nothing else. -/
namespace LineCensus.Text.Utf8

inductive Fault where
  | invalidStart
  | invalidContinuation
  | unexpectedEnd
deriving DecidableEq, Repr

/-- The first place where bytes are not UTF-8: its offset, and the longest start of a valid sequence
that stands there, or the one bad byte. -/
structure DecodeError where
  fault : Fault
  offset : Nat
  first : UInt8
  length : Nat
deriving DecidableEq, Repr

def Fault.name : Fault → String
  | .invalidStart => "invalid start byte"
  | .invalidContinuation => "invalid continuation byte"
  | .unexpectedEnd => "unexpected end of data"

def DecodeError.message (e : DecodeError) : String :=
  let place :=
    if e.length == 1 then
      "byte 0x" ++ String.ofList (hex 2 e.first.toNat) ++ " in position " ++ toString e.offset
    else "bytes in position " ++ toString e.offset ++ "-" ++ toString (e.offset + e.length - 1)
  "'utf-8' codec can't decode " ++ place ++ ": " ++ e.fault.name

def isContinuation (b : UInt8) : Bool :=
  0x80 ≤ b && b ≤ 0xBF

/-- The length of the sequence that a byte starts, and the least and greatest second byte. These
bounds keep out overlong forms, surrogates and values above the last code point. -/
def lead (b : UInt8) : Option (Nat × UInt8 × UInt8) :=
  if b < 0xC2 then none
  else if b < 0xE0 then some (2, 0x80, 0xBF)
  else if b == 0xE0 then some (3, 0xA0, 0xBF)
  else if b == 0xED then some (3, 0x80, 0x9F)
  else if b < 0xF0 then some (3, 0x80, 0xBF)
  else if b == 0xF0 then some (4, 0x90, 0xBF)
  else if b < 0xF4 then some (4, 0x80, 0xBF)
  else if b == 0xF4 then some (4, 0x80, 0x8F)
  else none

def push (n : Nat) (b : UInt8) : Nat :=
  n * 64 + b.toNat % 64

def decodeFrom (offset : Nat) (done : List Char) : List UInt8 → Except DecodeError (List Char)
  | [] => .ok done.reverse
  | a :: rest =>
    if a < 0x80 then decodeFrom (offset + 1) (Char.ofNat a.toNat :: done) rest
    else match lead a with
      | none => .error ⟨.invalidStart, offset, a, 1⟩
      | some (size, lo, hi) =>
        match rest with
        | [] => .error ⟨.unexpectedEnd, offset, a, 1⟩
        | b :: rest =>
          if b < lo || hi < b then .error ⟨.invalidContinuation, offset, a, 1⟩
          else if size == 2 then
            decodeFrom (offset + 2) (Char.ofNat (push (a.toNat % 32) b) :: done) rest
          else match rest with
            | [] => .error ⟨.unexpectedEnd, offset, a, 2⟩
            | c :: rest =>
              if !isContinuation c then .error ⟨.invalidContinuation, offset, a, 2⟩
              else if size == 3 then
                decodeFrom (offset + 3) (Char.ofNat (push (push (a.toNat % 16) b) c) :: done) rest
              else match rest with
                | [] => .error ⟨.unexpectedEnd, offset, a, 3⟩
                | d :: rest =>
                  if !isContinuation d then .error ⟨.invalidContinuation, offset, a, 3⟩
                  else decodeFrom (offset + 4)
                    (Char.ofNat (push (push (push (a.toNat % 8) b) c) d) :: done) rest

/-- The text that the bytes encode, or the first place where they encode none. A byte order mark is
a character like any other. -/
def decode (bytes : List UInt8) : Except DecodeError (List Char) :=
  decodeFrom 0 [] bytes

end LineCensus.Text.Utf8
