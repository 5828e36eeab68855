/-!
UTF-8: the encoding of characters as bytes, and its inverse. A sequence of bytes is read strictly
(`decode?`), with every fault marked (`readable`), or with every fault replaced (`decodeLossy`).
-/

namespace Flowgate.Text

-- What the first bytes of a sequence are: a character and what follows it, or a fault with the
-- number of bytes that belong to it.
inductive Lead where
  | char (c : Char) (rest : List UInt8)
  | fault (width : Nat)

-- Whether a byte continues a character, with bounds for the byte right after the lead.
private def follows (low high : UInt8) (b : UInt8) : Bool := low ≤ b && b ≤ high

private def tail (b : UInt8) : Bool := follows 0x80 0xBF b

private def bits (b : UInt8) (mask : UInt8) : Nat := (b &&& mask).toNat

-- Reads one character. Overlong forms, surrogates and values above the last character are faults;
-- a fault spans the bytes that could have started a character.
def lead : UInt8 → List UInt8 → Lead
  | b, rest =>
    if b < 0x80 then .char (Char.ofNat b.toNat) rest
    else if 0xC2 ≤ b && b ≤ 0xDF then
      match rest with
      | c :: rest =>
        if tail c then .char (Char.ofNat (bits b 0x1F * 64 + bits c 0x3F)) rest else .fault 1
      | [] => .fault 1
    else if 0xE0 ≤ b && b ≤ 0xEF then
      let low := if b = 0xE0 then 0xA0 else 0x80
      let high := if b = 0xED then 0x9F else 0xBF
      match rest with
      | c :: d :: rest =>
        if follows low high c then
          if tail d then
            .char (Char.ofNat (bits b 0x0F * 4096 + bits c 0x3F * 64 + bits d 0x3F)) rest
          else .fault 2
        else .fault 1
      | [c] => if follows low high c then .fault 2 else .fault 1
      | [] => .fault 1
    else if 0xF0 ≤ b && b ≤ 0xF4 then
      let low := if b = 0xF0 then 0x90 else 0x80
      let high := if b = 0xF4 then 0x8F else 0xBF
      match rest with
      | c :: d :: e :: rest =>
        if follows low high c then
          if tail d then
            if tail e then
              .char (Char.ofNat (bits b 0x07 * 262144 + bits c 0x3F * 4096 + bits d 0x3F * 64
                + bits e 0x3F)) rest
            else .fault 3
          else .fault 2
        else .fault 1
      | [c, d] =>
        if follows low high c then (if tail d then .fault 3 else .fault 2) else .fault 1
      | [c] => if follows low high c then .fault 2 else .fault 1
      | [] => .fault 1
    else .fault 1

-- The characters, with one character for each fault. The first argument bounds the number of steps
-- and is the number of bytes.
private def walk (fault : Char) : Nat → List Char → List UInt8 → List Char
  | 0, done, _ => done.reverse
  | _ + 1, done, [] => done.reverse
  | steps + 1, done, b :: bytes =>
    match lead b bytes with
    | .char c rest => walk fault steps (c :: done) rest
    | .fault width => walk fault steps (fault :: done) (bytes.drop (width - 1))

-- The characters, when the bytes hold nothing else.
def decode? (bytes : List UInt8) : Option (List Char) := go bytes.length [] bytes
where
  go : Nat → List Char → List UInt8 → Option (List Char)
    | _, done, [] => some done.reverse
    | 0, _, _ :: _ => none
    | steps + 1, done, b :: bytes =>
      match lead b bytes with
      | .char c rest => go steps (c :: done) rest
      | .fault _ => none

-- Stands for bytes that are no character, in a text that is read all the same.
def faultMark : Char := Char.ofNat 0x1A

-- A text in which every mark is the mark of a fault: NUL, a control character as well, takes the
-- place of others.
def unmarked (cs : List Char) : List Char :=
  cs.map fun c => if c = faultMark then Char.ofNat 0 else c

-- The characters, with a mark for each fault.
def readable (bytes : List UInt8) : List Char :=
  walk faultMark bytes.length [] (bytes.map fun b => if b = 0x1A then 0 else b)

-- The characters, with U+FFFD for each fault.
def decodeLossy (bytes : List UInt8) : List Char := walk (Char.ofNat 0xFFFD) bytes.length [] bytes

def encode (s : String) : List UInt8 := s.toUTF8.toList

def byteLength (s : String) : Nat := s.utf8ByteSize

end Flowgate.Text
