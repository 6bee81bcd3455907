import XredisCrdt.Proto.Multibulk

/-!
# The inline request parser

A request that does not start with `*` is one line of arguments with the quoting
rules of `sdssplitargs`. No replication stream has such requests, but
`processInputBuffer` decides by the first byte which parser is used.
-/

namespace XredisCrdt.Proto

/-- `isspace` in the C locale. -/
def isspace (b : UInt8) : Bool := b = 32 ∨ (9 ≤ b ∧ b ≤ 13)

/-- `hex_digit_to_int` on the bytes that `is_hex_digit` accepts. -/
def hexDigit (b : UInt8) : Option UInt8 :=
  if 48 ≤ b ∧ b ≤ 57 then some (b - 48)
  else if 97 ≤ b ∧ b ≤ 102 then some (b - 87)
  else if 65 ≤ b ∧ b ≤ 70 then some (b - 55)
  else none

/-- The byte that `\<b>` stands for in double quotes. -/
def unescape (b : UInt8) : UInt8 :=
  if b = 110 then 10
  else if b = 114 then 13
  else if b = 116 then 9
  else if b = 98 then 8
  else if b = 97 then 7
  else b

/-- The variables `inq` and `insq`. -/
inductive Quote
  | none
  | double
  | single
  deriving DecidableEq, Repr

/-- A closing quote is followed by a blank or by nothing. -/
def quoteMayClose : Bytes → Bool
  | [] => true
  | b :: _ => isspace b

/-- The loop `while(!done)`: the token that `current` becomes, and what is left;
`none` for unbalanced quotes. -/
def splitToken : Quote → Bytes → Bytes → Option (Bytes × Bytes)
  | .none, current, [] => some (current, [])
  | .double, _, [] => none
  | .single, _, [] => none
  | .double, current, 92 :: 120 :: h :: l :: p =>
    match hexDigit h, hexDigit l with
    | some hi, some lo => splitToken .double (current ++ [hi * 16 + lo]) p
    | _, _ => splitToken .double (current ++ [120]) (h :: l :: p)
  | .double, current, 92 :: b :: p => splitToken .double (current ++ [unescape b]) p
  | .double, current, b :: p =>
    if b = 34 then if quoteMayClose p then some (current, p) else none
    else splitToken .double (current ++ [b]) p
  | .single, current, 92 :: 39 :: p => splitToken .single (current ++ [39]) p
  | .single, current, b :: p =>
    if b = 39 then if quoteMayClose p then some (current, p) else none
    else splitToken .single (current ++ [b]) p
  | .none, current, b :: p =>
    if b = 32 ∨ b = 10 ∨ b = 13 ∨ b = 9 then some (current, p)
    else if b = 34 then splitToken .double current p
    else if b = 39 then splitToken .single current p
    else splitToken .none (current ++ [b]) p

/-- The outer loop of `sdssplitargs`. -/
def splitLoop : Nat → Bytes → Option (List Bytes)
  | 0, _ => some []
  | fuel + 1, line =>
    match line.dropWhile isspace with
    | [] => some []
    | b :: p =>
      match splitToken .none [] (b :: p) with
      | none => none
      | some (token, rest) => (splitLoop fuel rest).map (token :: ·)

/-- `sdssplitargs`: every token uses up at least one byte. -/
def sdssplitargs (line : Bytes) : Option (List Bytes) := splitLoop (line.length + 1) (cstr line)

def processInlineBuffer (i : Input) : Input × ParseResult :=
  match strchr i.querybuf 10 with
  | none =>
    if i.querybuf.length > protoInlineMaxSize then
      (i, .protocolError (ascii "Protocol error: too big inline request"))
    else (i, .again)
  | some k =>
    let querylen := if k ≠ 0 ∧ i.querybuf[k - 1]? = some 13 then k - 1 else k
    match sdssplitargs (i.querybuf.take querylen) with
    | none => (i, .protocolError (ascii "Protocol error: unbalanced quotes in request"))
    | some args =>
      ({ i with querybuf := i.querybuf.drop (querylen + 2), argv := args.filter (· ≠ []) }, .ok)

end XredisCrdt.Proto
